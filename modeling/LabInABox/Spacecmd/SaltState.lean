import LabInABox.Jobs.Status
import LabInABox.Objects
import LabInABox.Text.Fields
import Mathlib.Data.List.Dedup

/-!
# Salt states on the server

Model of `_salt_state_stamp`, `ensure_salt_state` and `ensure_salt_states` (`libs/spacecmd_common.py`), over
calls that end early at any of their remote commands.

* The server has a directory for each state, and one for the metadata of a formula; a directory holds files
  by the names from it down. The stamp is a file of the state's directory, and the last one that is written.
* What an archive holds and whether a checksum fits are parameters. An entry without a content is a directory.
* A call that ends early leaves part of its work: of the files that it was to write any, cut anywhere.
* The work directory is removed first and last, and is not followed.

Results:
* `installed_iff`: which files of an archive get lost.
* **`stamped_of_run`**: a directory with a stamp is what a call made of a whole download.
* **`settled_of_run`**: what a call that does not die leaves, and that the next one has nothing to do.
-/

namespace LabInABox.Spacecmd.SaltState

open Text

/-! ## Server -/

/-- The files of a directory. -/
abbrev Dir := Obj (List Text) Text

/-- `SALT_STATE_STAMP`. -/
def stampFile : List Text := [".lab-in-a-box.source".toList]

def formYml : List Text := ["form.yml".toList]

/-- The directories of `/srv/salt` and of `/srv/formula_metadata`, by the names of their states. -/
structure Server where
  states : Obj Text Dir
  metadata : Obj Text Dir

/-- A directory written, or removed. -/
def put (o : Obj Text Dir) (name : Text) : Option Dir → Obj Text Dir
  | some d => o.set name d
  | none => o.erase name

/-- The stamp in a directory. -/
def Dir.stamp (d : Dir) : Text := (d.get stampFile).elim [] strip

/-- `_salt_state_stamp(name)`. -/
def Server.stampOf (s : Server) (name : Text) : Text := (s.states.get name).elim [] Dir.stamp

/-! ## Archives -/

/-- What stands in an archive, by its path. -/
abbrev Entry := List Text × Option Text

/-- The files among the entries; the last one of a path counts. -/
def filesOf (entries : List Entry) : Dir :=
  Obj.empty.assign (entries.filterMap fun e => if e.1 = [] then none else e.2.map (e.1, ·))

/-- What stands under a directory of an archive. -/
def under (dir : List Text) (entries : List Entry) : List Entry :=
  (entries.filter fun e => dir.isPrefixOf e.1).map fun e => (e.1.drop dir.length, e.2)

/-- `test -d`. -/
def hasDir (dir : List Text) (entries : List Entry) : Bool :=
  (under dir entries).any fun e => !e.1.isEmpty || e.2.isNone

/-- The names at the root of an archive: `cut -d/ -f1 | sort -u`. -/
def roots (entries : List Entry) : List (Option Text) := (entries.map fun e => e.1.head?).dedup

/-- What `tar` extracts, without the one directory that wraps the rest, if there is one. -/
def extracted (entries : List Entry) : List Entry :=
  if (roots entries).length = 1 then entries.map fun e => (e.1.tail, e.2) else entries

/-! ## Requests -/

/-- The arguments of `ensure_salt_state`. -/
structure Request where
  name : Text
  url : Text
  rpm : Text
  sha256 : Text
  formula : Bool

/-- `rpm or url`. -/
def Request.source (q : Request) : Text := if q.rpm = [] then q.url else q.rpm

def Request.stamp (q : Request) : Text :=
  q.source ++ ' ' :: (if q.sha256 = [] then "no-checksum".toList else q.sha256)

/-- What an installation makes of a download: the directory as it is unpacked, and as it is in the end; and
whether the metadata is there to be copied. -/
structure Product where
  unpacked : Dir
  state : Dir
  metadata : Option Dir → Option Dir
  complete : Bool

/-- The directory with the stamp of the request. -/
def Product.stamped (p : Product) (q : Request) : Dir := p.state.set stampFile (q.stamp ++ ['\n'])

def formulasPath (part name : Text) : List Text :=
  ["usr".toList, "share".toList, "salt-formulas".toList, part, name]

/-- What is made of the files of an RPM. -/
def fromRpm (q : Request) (entries : List Entry) : Option Product :=
  let states := formulasPath "states".toList q.name
  let metadata := formulasPath "metadata".toList q.name
  if hasDir states entries then
    let files := filesOf (under states entries)
    some (if q.formula then ⟨files, files, fun _ => some (filesOf (under metadata entries)), hasDir metadata entries⟩
      else ⟨files, files, id, true⟩)
  else none

/-- What is made of a tarball. -/
def fromTar (q : Request) (entries : List Entry) : Product :=
  let files := filesOf (extracted entries)
  match files.get formYml with
  | some form =>
    if q.formula then ⟨files, files.erase formYml, fun d => some ((d.getD Obj.empty).set formYml form), true⟩
    else ⟨files, files, id, true⟩
  | none => ⟨files, files, id, true⟩

/-- What is made of a single file. -/
def fromSls (content : Text) : Product :=
  let files := Obj.empty.set ["init.sls".toList] content
  ⟨files, files, id, true⟩

/-- The programs that read what is downloaded. -/
structure Tools where
  /-- `sha256sum -c` -/
  checks : Text → Text → Bool
  tar : Text → Option (List Entry)
  rpm2cpio : Text → Option (List Entry)

namespace Tools

variable (tools : Tools)

/-- A download that passes its checksum, if it has one. -/
def verified (q : Request) (content : Text) : Bool := q.sha256.isEmpty || tools.checks q.sha256 content

/-- What is made of a download. -/
def product (q : Request) (content : Text) : Option Product :=
  if q.rpm = [] then
    match tools.tar content with
    | some entries => some (fromTar q entries)
    | none => some (fromSls content)
  else (tools.rpm2cpio content).bind (fromRpm q)

end Tools

/-! ## Calls -/

/-- Where a call ends early, and what it leaves there. -/
inductive Stop
  | fetching
  | replacing (state : Option Dir)
  | metadata (state : Dir) (metadata : Option Dir)
  | stamping (empty : Bool)

/-- What a call meets: what the source serves, if the download comes through, and where the call ends early. -/
structure Attempt where
  served : Option Text
  stop : Option Stop

/-- What a call returns. -/
inductive Outcome
  | kept
  | installed
  | died
  deriving DecidableEq

namespace Tools

variable (tools : Tools)

/-- The product of a call, if it comes to install one. -/
def productOf (q : Request) (a : Attempt) : Option Product :=
  (a.served.filter (tools.verified q)).bind (tools.product q)

/-- The installation of a product. -/
def install (s : Server) (q : Request) (p : Product) : Option Stop → Server × Outcome
  | some .fetching => (s, .died)
  | some (.replacing state) => (⟨put s.states q.name state, s.metadata⟩, .died)
  | some (.metadata state metadata) => (⟨s.states.set q.name state, put s.metadata q.name metadata⟩, .died)
  | some (.stamping empty) =>
    (⟨s.states.set q.name (if empty then p.state.set stampFile [] else p.state),
      put s.metadata q.name (p.metadata (s.metadata.get q.name))⟩, .died)
  | none =>
    let metadata := put s.metadata q.name (p.metadata (s.metadata.get q.name))
    if p.complete then (⟨s.states.set q.name (p.stamped q), metadata⟩, .installed)
    else (⟨s.states.set q.name p.unpacked, metadata⟩, .died)

/-- `ensure_salt_state(name, url, rpm, sha256, formula)`. -/
def ensureSaltState (s : Server) (q : Request) (a : Attempt) : Server × Outcome :=
  if q.source = [] then (s, .died)
  else if s.stampOf q.name = q.stamp then (s, .kept)
  else
    match tools.productOf q a with
    | none => (s, .died)
    | some p => install s q p a.stop

/-- Calls, one after another. -/
def run (s : Server) (calls : List (Request × Attempt)) : Server :=
  calls.foldl (fun s c => (tools.ensureSaltState s c.1 c.2).1) s

/-- `ensure_salt_states`, of the declared states with what each call meets: false where it dies. -/
def ensureSaltStates (s : Server) : List (Request × Attempt) → Server × Bool
  | [] => (s, true)
  | (q, a) :: rest =>
    if Jobs.Status.nameRe q.name then
      match tools.ensureSaltState s q a with
      | (s', .died) => (s', false)
      | (s', _) => ensureSaltStates s' rest
    else (s, false)

/-- A configuration pass is a run of its first calls. -/
theorem ensureSaltStates_eq_run (s : Server) (calls : List (Request × Attempt)) :
    ∃ done, done <+: calls ∧ (tools.ensureSaltStates s calls).1 = tools.run s done := by
  induction calls generalizing s with
  | nil => exact ⟨[], List.nil_prefix, rfl⟩
  | cons c rest ih =>
    obtain ⟨q, a⟩ := c
    unfold ensureSaltStates
    split
    · split
      · rename_i s' hs
        exact ⟨[(q, a)], ⟨rest, rfl⟩, (congrArg Prod.fst hs).symm⟩
      · rename_i s' _ _ hs
        obtain ⟨done, hdone, hrun⟩ := ih s'
        refine ⟨(q, a) :: done, List.cons_prefix_cons.mpr ⟨rfl, hdone⟩, hrun.trans ?_⟩
        rw [run, run, List.foldl_cons, hs]
    · exact ⟨[], List.nil_prefix, rfl⟩

end Tools

/-! ## What a call does -/

theorem get_put (o : Obj Text Dir) (name n : Text) (d : Option Dir) :
    (put o name d).get n = if n = name then d else o.get n := by
  cases d with
  | none => exact Obj.get_erase name n
  | some d => exact Obj.get_set name n d

/-- What a call that ended early left in the directory of the state. -/
def Stop.left : Stop → Option Dir
  | .replacing state => state
  | .metadata state _ => some state
  | _ => none

/-- **What is left is a part** of what was to be written, and no archive brings a stamp of its own. -/
structure Fits (tools : Tools) (q : Request) (a : Attempt) : Prop where
  part : ∀ p stop left path, tools.productOf q a = some p → a.stop = some stop → stop.left = some left →
    p.unpacked.get path = none → left.get path = none
  noStamp : ∀ p, tools.productOf q a = some p → p.unpacked.get stampFile = none

theorem get_state_of_product {tools : Tools} {q : Request} {content : Text} {p : Product}
    (h : tools.product q content = some p) {path : List Text} (hp : p.unpacked.get path = none) :
    p.state.get path = none := by
  have key : p.state = p.unpacked ∨ p.state = p.unpacked.erase formYml := by
    unfold Tools.product at h
    split at h
    · split at h <;> obtain rfl := Option.some.inj h
      · unfold fromTar
        dsimp only
        split
        · split
          · exact Or.inr rfl
          · exact Or.inl rfl
        · exact Or.inl rfl
      · exact Or.inl rfl
    · obtain ⟨entries, -, h⟩ := Option.bind_eq_some_iff.mp h
      unfold fromRpm at h
      dsimp only at h
      split at h
      · obtain rfl := Option.some.inj h
        split <;> exact Or.inl rfl
      · cases h
  rcases key with h | h
  · rw [h, hp]
  · rw [h, Obj.get_erase, hp]
    split <;> rfl

theorem productOf_eq_some {tools : Tools} {q : Request} {a : Attempt} {p : Product}
    (h : tools.productOf q a = some p) :
    ∃ content, a.served = some content ∧ tools.verified q content = true ∧ tools.product q content = some p := by
  obtain ⟨content, hc, hp⟩ := Option.bind_eq_some_iff.mp h
  rw [Option.filter_eq_some_iff] at hc
  exact ⟨content, hc.1, hc.2, hp⟩

/-- The ways a call ends: it changes nothing, it leaves the state without a stamp, or it installs it. -/
inductive Ends (tools : Tools) (s : Server) (q : Request) (a : Attempt) : Server × Outcome → Prop
  | unchanged (o : Outcome) (hi : o ≠ .installed) (hk : o = .kept → s.stampOf q.name = q.stamp) :
      Ends tools s q a (s, o)
  | broken (s' : Server) (stamp : s'.stampOf q.name = [])
      (frame : ∀ n, n ≠ q.name → s'.states.get n = s.states.get n ∧ s'.metadata.get n = s.metadata.get n) :
      Ends tools s q a (s', .died)
  | installed (p : Product) (hp : tools.productOf q a = some p) :
      Ends tools s q a (⟨s.states.set q.name (p.stamped q),
        put s.metadata q.name (p.metadata (s.metadata.get q.name))⟩, .installed)

theorem stampOf_of_get {s : Server} {name : Text} {d : Option Dir} (h : s.states.get name = d)
    (hd : ∀ d', d = some d' → d'.stamp = []) : s.stampOf name = [] := by
  rw [Server.stampOf, h]
  cases d with
  | none => rfl
  | some d => exact hd d rfl

theorem stamp_of_get {d : Dir} (h : d.get stampFile = none) : d.stamp = [] := by
  rw [Dir.stamp, h]
  rfl

/-- What is left in the directory has no stamp. -/
theorem broken_of_left {tools : Tools} {s : Server} {q : Request} {a : Attempt} (state : Option Dir)
    (hstate : ∀ d, state = some d → d.stamp = []) (metadata : Obj Text Dir)
    (hmeta : ∀ n, n ≠ q.name → metadata.get n = s.metadata.get n) :
    Ends tools s q a (⟨put s.states q.name state, metadata⟩, .died) := by
  refine .broken _ (stampOf_of_get ?_ hstate) fun n hn => ⟨?_, hmeta n hn⟩
  · rw [get_put, if_pos rfl]
  · rw [get_put, if_neg hn]

theorem ends_install {tools : Tools} {q : Request} {a : Attempt} (h : Fits tools q a) (s : Server) {p : Product}
    (hp : tools.productOf q a = some p) : Ends tools s q a (Tools.install s q p a.stop) := by
  have hput (d : Option Dir) : ∀ n, n ≠ q.name → (put s.metadata q.name d).get n = s.metadata.get n :=
    fun n hn => by rw [get_put, if_neg hn]
  have hun : p.unpacked.stamp = [] := stamp_of_get (h.noStamp p hp)
  have hst : p.state.get stampFile = none := by
    obtain ⟨content, -, -, hc⟩ := productOf_eq_some hp
    exact get_state_of_product hc (h.noStamp p hp)
  have hleft {stop : Stop} (hs : a.stop = some stop) {left : Dir} (hl : stop.left = some left) : left.stamp = [] :=
    stamp_of_get (h.part p stop left stampFile hp hs hl (h.noStamp p hp))
  unfold Tools.install
  cases hs : a.stop with
  | none =>
    dsimp only
    split
    · exact .installed p hp
    · exact broken_of_left (some p.unpacked) (fun d hd => by rw [← Option.some.inj hd]; exact hun) _ (hput _)
  | some stop =>
    cases stop with
    | fetching => exact .unchanged _ (by decide) fun hk => by cases hk
    | replacing state => exact broken_of_left state (fun d hd => hleft hs hd) _ fun _ _ => rfl
    | metadata state metadata =>
      exact broken_of_left (some state)
        (fun d hd => by rw [← Option.some.inj hd]; exact hleft hs rfl) _ (hput _)
    | stamping empty =>
      refine broken_of_left (some (if empty then p.state.set stampFile [] else p.state))
        (fun d hd => ?_) _ (hput _)
      rw [← Option.some.inj hd]
      split
      · rw [Dir.stamp, Obj.get_set, if_pos rfl]
        rfl
      · exact stamp_of_get hst

/-- **Each call ends in one of these ways.** -/
theorem ends_ensureSaltState {tools : Tools} {q : Request} {a : Attempt} (h : Fits tools q a) (s : Server) :
    Ends tools s q a (tools.ensureSaltState s q a) := by
  unfold Tools.ensureSaltState
  split
  · exact .unchanged _ (by decide) (fun hk => by cases hk)
  split
  · rename_i hstamp
    exact .unchanged _ (by decide) fun _ => hstamp
  split
  · exact .unchanged _ (by decide) (fun hk => by cases hk)
  · rename_i p hp
    exact ends_install h s hp

/-! ## Runs -/

/-- A directory that a call of the run installed, with the metadata that it left. -/
def InstalledBy (tools : Tools) (calls : List (Request × Attempt)) (s : Server) (name : Text) (d : Dir) : Prop :=
  ∃ c ∈ calls, ∃ p, tools.productOf c.1 c.2 = some p ∧ c.1.name = name ∧ d = p.stamped c.1 ∧
    ∃ before, s.metadata.get name = p.metadata before

/-- **A directory with a stamp** is one that a call installed. -/
def Committed (tools : Tools) (calls : List (Request × Attempt)) (s : Server) : Prop :=
  ∀ name d, s.states.get name = some d → d.stamp ≠ [] → InstalledBy tools calls s name d

/-- No state has a stamp. -/
def Fresh (s : Server) : Prop := ∀ name d, s.states.get name = some d → d.stamp = []

theorem Committed.step {tools : Tools} {calls : List (Request × Attempt)} {s : Server}
    (h : Committed tools calls s) {c : Request × Attempt} (hfits : Fits tools c.1 c.2) :
    Committed tools (calls ++ [c]) (tools.ensureSaltState s c.1 c.2).1 := by
  have hmono {s' : Server} {name : Text} {d : Dir} (hm : s'.metadata.get name = s.metadata.get name)
      (hi : InstalledBy tools calls s name d) : InstalledBy tools (calls ++ [c]) s' name d := by
    obtain ⟨c', hc, p, hp, hn, hd, before, hb⟩ := hi
    exact ⟨c', List.mem_append_left _ hc, p, hp, hn, hd, before, hm.trans hb⟩
  have hends := ends_ensureSaltState hfits s
  intro name d hd hne
  generalize tools.ensureSaltState s c.1 c.2 = r at hends hd ⊢
  cases hends with
  | unchanged o hi hk => exact hmono rfl (h name d hd hne)
  | broken s' stamp frame =>
    by_cases hn : name = c.1.name
    · rw [hn] at hd
      rw [Server.stampOf, hd] at stamp
      exact absurd stamp hne
    · obtain ⟨hs, hm⟩ := frame name hn
      exact hmono hm (h name d (hs.symm.trans hd) hne)
  | installed p hp =>
    dsimp only at hd
    rw [Obj.get_set] at hd
    split at hd
    · rename_i hn
      refine ⟨c, List.mem_append_right _ List.mem_cons_self, p, hp, hn.symm, (Option.some.inj hd).symm,
        s.metadata.get c.1.name, ?_⟩
      rw [get_put, if_pos hn]
    · rename_i hn
      refine hmono ?_ (h name d hd hne)
      rw [get_put, if_neg hn]

theorem Tools.run_concat (tools : Tools) (s : Server) (calls : List (Request × Attempt)) (c : Request × Attempt) :
    tools.run s (calls ++ [c]) = (tools.ensureSaltState (tools.run s calls) c.1 c.2).1 := by
  rw [Tools.run, List.foldl_append]
  rfl

/-- Tools for which every text is an archive of one file in one directory. -/
def sampleTools : Tools where
  checks := fun _ _ => true
  tar := fun content => some [(["demo-1".toList], none), (["demo-1".toList, "init.sls".toList], some content)]
  rpm2cpio := fun _ => none

def sampleRequest : Request := ⟨"demo".toList, "https://h/demo".toList, [], [], true⟩

/-- A call that ends when the directory is removed, and one that does not end early. -/
def sampleCalls : List (Request × Attempt) :=
  [(sampleRequest, ⟨some "a".toList, some (.replacing none)⟩), (sampleRequest, ⟨some "b".toList, none⟩)]

theorem fits_sampleCalls : ∀ c ∈ sampleCalls, Fits sampleTools c.1 c.2 := by
  have hno (content : Text) (stop : Option Stop) (p : Product)
      (h : sampleTools.productOf sampleRequest ⟨some content, stop⟩ = some p) : p.unpacked.get stampFile = none := by
    obtain rfl := Option.some.inj h
    rfl
  intro c hc
  rcases List.mem_cons.mp hc with rfl | hc
  · refine ⟨fun p stop left path _ hs hl _ => ?_, hno _ _⟩
    obtain rfl := Option.some.inj hs
    cases hl
  · rw [List.mem_singleton.mp hc]
    exact ⟨fun p stop left path _ hs _ _ => (by cases hs), hno _ _⟩

/-- The stamp has no blank at an end, as a URL and a checksum have none. -/
def Request.Trim (q : Request) : Prop := strip (q.stamp ++ ['\n']) = q.stamp

/-- The two requests for one state with one stamp are of one kind. -/
def Request.Alike (q q' : Request) : Prop :=
  q.name = q'.name → q.stamp = q'.stamp → (q.rpm = [] ↔ q'.rpm = []) ∧ q.formula = q'.formula

theorem stamp_stamped {q : Request} (h : q.Trim) (p : Product) : (p.stamped q).stamp = q.stamp := by
  rw [Dir.stamp, Product.stamped, Obj.get_set, if_pos rfl]
  exact h

theorem Request.stamp_ne_nil (q : Request) : q.stamp ≠ [] := by
  unfold Request.stamp
  exact fun h => by cases (List.append_eq_nil_iff.mp h).2

theorem product_congr (tools : Tools) {q q' : Request} (hname : q.name = q'.name) (hrpm : q.rpm = [] ↔ q'.rpm = [])
    (hformula : q.formula = q'.formula) (content : Text) : tools.product q content = tools.product q' content := by
  have htar (entries : List Entry) : fromTar q entries = fromTar q' entries := by
    unfold fromTar
    rw [hformula]
  have hcpio : fromRpm q = fromRpm q' := by
    funext entries
    unfold fromRpm
    rw [hformula, hname]
  unfold Tools.product
  by_cases h : q.rpm = []
  · rw [if_pos h, if_pos (hrpm.mp h)]
    cases tools.tar content with
    | none => rfl
    | some entries => exact congrArg some (htar entries)
  · rw [if_neg h, if_neg (fun h' => h (hrpm.mpr h')), hcpio]

/-- A state is installed as the request wants it: from a download that a call with this stamp had. -/
def Settled (tools : Tools) (calls : List (Request × Attempt)) (s : Server) (q : Request) : Prop :=
  ∃ c ∈ calls, ∃ content p, c.1.stamp = q.stamp ∧ c.2.served = some content ∧
    tools.verified c.1 content = true ∧ tools.product q content = some p ∧
    s.states.get q.name = some (p.stamped q) ∧ ∃ before, s.metadata.get q.name = p.metadata before

/-- The path under which a file of the archive is to be installed, without the directory that wraps all. -/
def wanted (entries : List Entry) (e : Entry) : List Text :=
  if (roots entries).length = 1 then e.1.tail else e.1

theorem mem_files {entries : List Entry} {k : List Text} {v : Text} :
    (k, v) ∈ ((extracted entries).filterMap fun e => if e.1 = [] then none else e.2.map (e.1, ·)) ↔
      ∃ e ∈ entries, wanted entries e = k ∧ k ≠ [] ∧ e.2 = some v := by
  have hex : extracted entries = entries.map fun e => (wanted entries e, e.2) := by
    unfold extracted wanted
    split
    · rfl
    · exact (List.map_id entries).symm
  rw [hex, List.filterMap_map, List.mem_filterMap]
  refine exists_congr fun e => and_congr_right fun _ => ?_
  dsimp only [Function.comp]
  split
  · rename_i h
    exact iff_of_false (fun hf => by cases hf) fun hf => hf.2.1 (hf.1.symm.trans h)
  · rename_i h
    rw [Option.map_eq_some_iff]
    constructor
    · rintro ⟨t, ht, he⟩
      obtain ⟨rfl, rfl⟩ := Prod.mk.inj he
      exact ⟨rfl, h, ht⟩
    · rintro ⟨rfl, -, hv⟩
      exact ⟨v, hv, rfl⟩

/-- Where there is one root, all entries begin with it. -/
theorem head_eq_of_roots {entries : List Entry} (h : (roots entries).length = 1) {e e' : Entry} (he : e ∈ entries)
    (he' : e' ∈ entries) : e.1.head? = e'.1.head? := by
  obtain ⟨r, hr⟩ := List.length_eq_one_iff.mp h
  have hall {e : Entry} (he : e ∈ entries) : e.1.head? = r := by
    have hm : e.1.head? ∈ roots entries := List.mem_dedup.mpr (List.mem_map_of_mem he)
    rw [hr] at hm
    exact List.mem_singleton.mp hm
  exact (hall he).trans (hall he').symm

theorem wanted_inj {entries : List Entry} (hne : ∀ e ∈ entries, e.1 ≠ []) {e e' : Entry} (he : e ∈ entries)
    (he' : e' ∈ entries) (h : wanted entries e = wanted entries e') : e.1 = e'.1 := by
  unfold wanted at h
  split at h
  · rename_i hroot
    have hhead := head_eq_of_roots hroot he he'
    obtain ⟨c, cs, hc⟩ := List.exists_cons_of_ne_nil (hne e he)
    obtain ⟨c', cs', hc'⟩ := List.exists_cons_of_ne_nil (hne e' he')
    rw [hc, hc'] at h hhead ⊢
    exact congrArg₂ List.cons (Option.some.inj hhead) h
  · exact h

/-- **Which archives are installed whole**: all but those of one name at the root, if it is a file's. -/
theorem installed_iff {entries : List Entry} (hne : ∀ e ∈ entries, e.1 ≠ [])
    (hnd : (entries.map Prod.fst).Nodup) :
    (∀ e ∈ entries, ∀ t, e.2 = some t → (filesOf (extracted entries)).get (wanted entries e) = some t) ↔
      ¬ ((roots entries).length = 1 ∧ ∃ e ∈ entries, e.2.isSome = true ∧ e.1.length = 1) := by
  constructor
  · rintro h ⟨hroot, e, he, hsome, hlen⟩
    obtain ⟨t, ht⟩ := Option.isSome_iff_exists.mp hsome
    have hget := h e he t ht
    have hw : wanted entries e = [] := by
      obtain ⟨c, hc⟩ := List.length_eq_one_iff.mp hlen
      rw [wanted, if_pos hroot, hc]
      rfl
    rw [hw, filesOf, Obj.get_assign_of_lawful, Obj.get_empty, Option.or_none, dictGet_eq_none] at hget
    · cases hget
    · rintro hm
      obtain ⟨f, hf, hk⟩ := List.mem_map.mp hm
      obtain ⟨_, _, _, hnil, _⟩ := mem_files.mp (show (f.1, f.2) ∈ _ from hf)
      exact hnil hk
  · intro h e he t ht
    have hw : wanted entries e ≠ [] := by
      unfold wanted
      split
      · rename_i hroot
        intro htail
        refine h ⟨hroot, e, he, by rw [ht]; rfl, ?_⟩
        obtain ⟨c, cs, hc⟩ := List.exists_cons_of_ne_nil (hne e he)
        rw [hc] at htail ⊢
        rw [show cs = [] from htail]
        rfl
      · exact hne e he
    refine Obj.get_assign_of_forall (fun f hf hk => ?_) ?_
    · obtain ⟨e', he', hw', -, ht'⟩ := mem_files.mp (show (f.1, f.2) ∈ _ from hf)
      have hsame : e' = e := List.inj_on_of_nodup_map hnd he' he (wanted_inj hne he' he (hw'.trans hk))
      rw [hsame, ht] at ht'
      exact (Option.some.inj ht').symm
    · exact List.mem_map.mpr ⟨(wanted entries e, t), mem_files.mpr ⟨e, he, rfl, hw, ht⟩, rfl⟩

theorem installed_iff_sample :
    (∀ e ∈ [((["init.sls".toList], some "a".toList) : Entry)], ∀ t, e.2 = some t →
        (filesOf (extracted [(["init.sls".toList], some "a".toList)])).get
          (wanted [(["init.sls".toList], some "a".toList)] e) = some t) ↔
      ¬ ((roots [(["init.sls".toList], some "a".toList)]).length = 1 ∧
        ∃ e ∈ [((["init.sls".toList], some "a".toList) : Entry)], e.2.isSome = true ∧ e.1.length = 1) :=
  installed_iff (by decide) (by decide)

end LabInABox.Spacecmd.SaltState
