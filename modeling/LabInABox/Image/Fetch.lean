import Mathlib.Logic.Function.Basic
import LabInABox.Run
import LabInABox.Text.Fields

/-!
# Fetching a base image

Model of `_FETCH_IMAGE_SCRIPT` and `fetch_source_image` (`libs/lab_creation.py`): runs of the script
for one image on one host, command by command.

* `At` is the command a run is at, with the shell variables it has set. A step is one command; a run may
  be interrupted before any of them, and the commands of several runs interleave in any order.
* `want` is the digest a run is asked for: the lower case of the given one, or what the digest URL gave.
* A download appends what it received to the part file (`curl -C -`), whether it succeeds or not.
* The digest of a content is a parameter: `sha256sum`.

Results:
* `advance_spec`: a sound step keeps the marker from vouching for another content.
* `verified_of_sound`: a run that ends well leaves an image with the digest it was asked for.
* `fetch_trusts_stale_marker`: the marker of an image that was moved aside vouches for the next one.
-/

namespace LabInABox.Image

open Text

/-! ## The script -/

abbrev Bytes := List UInt8

/-- The files of an image: itself, its marker, its download and the copy that was moved aside. -/
structure Disk where
  image : Option Bytes
  marker : Option Text
  part : Option Bytes
  corrupt : Option Bytes
  deriving DecidableEq

/-- How a run ended: what it says, or its exit status. -/
inductive Outcome
  | cached
  | downloaded
  | failed (status : Nat)
  | interrupted
  deriving DecidableEq

/-- The command a run is at. -/
inductive At
  /-- `want=..` and the test that it is a digest -/
  | resolve
  /-- `[ -f "${dest}" ]` -/
  | testImage
  /-- `[ -f "${marker}" ]` -/
  | testMarker
  /-- `$(cat "${marker}")` -/
  | catMarker
  /-- `$(stat -c %s "${dest}")` and the comparison -/
  | statImage (recorded : Text)
  | echoCached
  | makeDir
  /-- `[ ! -f "${dest}" ]` -/
  | testAbsent
  /-- `curl .. -C - -o "${dest}.part" "${url}"`, for the urls that are left -/
  | curl (urls : List Text)
  /-- `mv "${dest}.part" "${dest}"` -/
  | movePart
  /-- `got=$(sha256sum "${dest}" | ..)` -/
  | sum
  | compare (got : Text)
  /-- `mv "${dest}" "${dest}.corrupt"` -/
  | moveAside
  /-- `$(stat -c %s "${dest}")` of the marker -/
  | statSize
  | writeMarker (size : Text)
  | echoDownloaded
  | ended (outcome : Outcome)
  deriving DecidableEq

/-- A run: what it is asked for, the command it is at, and the image as it last read it. -/
structure Run where
  want : Text
  urls : List Text
  position : At
  looked : Option Bytes

/-- The host, and the runs of the script on it. -/
structure Host (ι : Type) where
  disk : Disk
  runs : ι → Run

/-- What a step of a run is: its next command, the download of a url, or its end. -/
inductive Action
  | next
  | curl (chunk : Bytes) (ok : Bool)
  | interrupt
  deriving DecidableEq

/-- `grep -Eq '^[0-9a-f]{64}$'`. -/
def IsDigest (want : Text) : Prop :=
  want.length = 64 ∧ ∀ c ∈ want, c.isDigit = true ∨ ('a' ≤ c ∧ c ≤ 'f')

instance decidableIsDigest (want : Text) : Decidable (IsDigest want) :=
  inferInstanceAs (Decidable (_ ∧ _))

/-- The output of a command as the shell substitutes it. -/
def commandOutput (t : Text) : Text := t.rdropWhile (· = '\n')

/-- `stat -c %s`, empty when there is no file. -/
def statSize (content : Option Bytes) : Text := content.elim [] fun c => c.length.repr.toList

variable (sha256sum : Bytes → Text)

/-- One step of a run: the files after it, and the run. -/
def advance (d : Disk) (r : Run) (a : Action) : Disk × Run :=
  match a, r.position with
  | _, .ended _ => (d, r)
  | .interrupt, _ => (d, { r with position := .ended .interrupted })
  | .curl chunk ok, .curl (_ :: urls) =>
    ({ d with part := if ok = true ∨ chunk ≠ [] then some (d.part.getD [] ++ chunk) else d.part },
      { r with position := if ok then .movePart else .curl urls })
  | .next, .resolve =>
    (d, { r with position := if IsDigest r.want then .testImage else .ended (.failed 3) })
  | .next, .testImage =>
    (d, { r with position := if d.image.isSome then .testMarker else .makeDir })
  | .next, .testMarker =>
    (d, { r with position := if d.marker.isSome then .catMarker else .makeDir })
  | .next, .catMarker =>
    (d, { r with position := .statImage (commandOutput (d.marker.getD [])) })
  | .next, .statImage recorded =>
    (d, { r with
      position := if recorded = r.want ++ ' ' :: statSize d.image then .echoCached else .makeDir
      looked := d.image })
  | .next, .echoCached => (d, { r with position := .ended .cached })
  | .next, .makeDir => (d, { r with position := .testAbsent })
  | .next, .testAbsent => (d, { r with position := if d.image.isSome then .sum else .curl r.urls })
  | .next, .curl [] => (d, { r with position := .ended (.failed 5) })
  | .next, .movePart =>
    match d.part with
    | none => (d, { r with position := .ended (.failed 1) })
    | some c => ({ d with image := some c, part := none }, { r with position := .sum })
  | .next, .sum =>
    (d, { r with position := .compare (d.image.elim [] sha256sum), looked := d.image })
  | .next, .compare got =>
    (d, { r with position := if got = r.want then .statSize else .moveAside })
  | .next, .moveAside =>
    match d.image with
    | none => (d, { r with position := .ended (.failed 1) })
    | some c => ({ d with image := none, corrupt := some c }, { r with position := .ended (.failed 4) })
  | .next, .statSize => (d, { r with position := .writeMarker (statSize d.image) })
  | .next, .writeMarker size =>
    ({ d with marker := some (r.want ++ ' ' :: (size ++ ['\n'])) },
      { r with position := .echoDownloaded })
  | .next, .echoDownloaded => (d, { r with position := .ended .downloaded })
  | .next, .curl (_ :: _) | .curl _ _, _ => (d, r)

variable {ι : Type} [DecidableEq ι]

/-- One step of one of the runs. -/
def step (s : Host ι) (a : ι × Action) : Host ι where
  disk := (advance sha256sum s.disk (s.runs a.1) a.2).1
  runs := Function.update s.runs a.1 (advance sha256sum s.disk (s.runs a.1) a.2).2

omit [DecidableEq ι] in
/-- The host before any of the runs: each has its digest and its urls. -/
def start (disk : Disk) (asked : ι → Text × List Text) : Host ι where
  disk := disk
  runs i := ⟨(asked i).1, (asked i).2, .resolve, none⟩

/-! ## What is trusted -/

/-- The step ends its run with `cached` or `downloaded`. -/
def EndsWell (s : Host ι) (a : ι × Action) : Prop :=
  ((s.runs a.1).position = .echoCached ∨ (s.runs a.1).position = .echoDownloaded) ∧ a.2 = .next

instance decidableEndsWell (s : Host ι) (a : ι × Action) : Decidable (EndsWell s a) :=
  inferInstanceAs (Decidable (_ ∧ _))

/-- **The image a run ends well with is the one it was asked for.** -/
def Verified (s : Host ι) (a : ι × Action) : Prop :=
  EndsWell s a → (step sha256sum s a).disk.image.map sha256sum = some (s.runs a.1).want

/-- The marker vouches for another content of this size. -/
def Stale (marker : Option Text) (c : Bytes) : Prop :=
  ∃ m ∈ marker, IsDigest ((commandOutput m).take 64) ∧
    (commandOutput m).drop 64 = ' ' :: statSize (some c) ∧ (commandOutput m).take 64 ≠ sha256sum c

instance decidableStale (marker : Option Text) (c : Bytes) : Decidable (Stale sha256sum marker c) :=
  inferInstanceAs (Decidable (∃ m ∈ marker, _))

/-- A step is sound: no marker of another content stands when a download is moved into place, a copy is
recognised as cached while it is there with the marker that was read, and a run that vouches for the
image or ends well finds it as it last read it. -/
def SoundStep (d : Disk) (r : Run) (a : Action) : Prop :=
  match a, r.position with
  | .next, .movePart => ∀ c ∈ d.part, ¬ Stale sha256sum d.marker c
  | .next, .statImage recorded =>
    recorded = r.want ++ ' ' :: statSize d.image →
      d.marker.map commandOutput = some recorded ∧ d.image.isSome = true
  | .next, .writeMarker _ | .next, .echoCached | .next, .echoDownloaded => d.image = r.looked
  | _, _ => True

instance decidableSoundStep (d : Disk) (r : Run) (a : Action) :
    Decidable (SoundStep sha256sum d r a) := by
  unfold SoundStep
  split <;> infer_instance

/-- The step is a sound one of its run. -/
def Sound (s : Host ι) (a : ι × Action) : Prop :=
  SoundStep sha256sum s.disk (s.runs a.1) a.2

instance decidableSound (s : Host ι) (a : ι × Action) : Decidable (Sound sha256sum s a) :=
  inferInstanceAs (Decidable (SoundStep _ _ _ _))

/-! ## The invariant -/

section Invariant

variable {sha256sum}

/-- What a run knows where it stands. -/
def Knows (sha256sum : Bytes → Text) (r : Run) : Prop :=
  match r.position with
  | .resolve | .ended _ => True
  | .compare got => IsDigest r.want ∧ got = r.looked.elim [] sha256sum
  | .echoCached | .statSize | .writeMarker _ | .echoDownloaded =>
    IsDigest r.want ∧ r.looked.map sha256sum = some r.want
  | .testImage | .testMarker | .catMarker | .statImage _ | .makeDir | .testAbsent | .curl _
  | .movePart | .sum | .moveAside => IsDigest r.want

/-- **The link between marker and content**: the marker does not vouch for another content than the
image there is. -/
def Linked (sha256sum : Bytes → Text) (d : Disk) : Prop :=
  ∀ c ∈ d.image, ¬ Stale sha256sum d.marker c

/-- What a sound marker says of the image. -/
theorem sha256sum_of_linked {d : Disk} {want : Text} (h : Linked sha256sum d) (hw : IsDigest want)
    (hm : d.marker.map commandOutput = some (want ++ ' ' :: statSize d.image)) {c : Bytes}
    (hc : d.image = some c) : sha256sum c = want := by
  obtain ⟨m, hmarker, hout⟩ := Option.map_eq_some_iff.mp hm
  by_contra hne
  refine h c hc ⟨m, hmarker, ?_, ?_, ?_⟩
  all_goals rw [hout]
  · rwa [List.take_left' hw.1]
  · rw [List.drop_left' hw.1, hc]
  · rw [List.take_left' hw.1]
    exact Ne.symm hne

/-- A marker that is written for the digest of the image is not stale. -/
theorem not_stale_written {want size : Text} {c : Bytes} (hw : IsDigest want)
    (hc : sha256sum c = want) : ¬ Stale sha256sum (some (want ++ ' ' :: (size ++ ['\n']))) c := by
  rintro ⟨m, hm, -, hdrop, hne⟩
  obtain rfl := Option.mem_some_iff.mp hm
  obtain ⟨rest, hrest⟩ := List.rdropWhile_prefix (p := fun c => decide (c = '\n'))
    (want ++ ' ' :: (size ++ ['\n']))
  change commandOutput _ ++ rest = _ at hrest
  have hlong : 64 ≤ (commandOutput (want ++ ' ' :: (size ++ ['\n']))).length := by
    have hlen := congrArg List.length hdrop
    rw [List.length_drop, List.length_cons] at hlen
    omega
  have htake := congrArg (List.take 64) hrest
  rw [List.take_append_of_le_length hlong, List.take_left' hw.1] at htake
  refine hne ?_
  rw [hc, htake]

/-- **A sound step** keeps the marker linked to the image, and the run knowing where it stands. -/
theorem advance_spec {d : Disk} {r : Run} {a : Action} (hl : Linked sha256sum d)
    (hk : Knows sha256sum r) (hs : SoundStep sha256sum d r a) :
    Linked sha256sum (advance sha256sum d r a).1 ∧ Knows sha256sum (advance sha256sum d r a).2 := by
  obtain ⟨want, urls, position, looked⟩ := r
  cases a with
  | interrupt => cases position <;> exact ⟨hl, trivial⟩
  | curl chunk ok =>
    cases position with
    | curl left =>
      cases left with
      | nil => exact ⟨hl, hk⟩
      | cons url left =>
        refine ⟨hl, ?_⟩
        cases ok <;> exact hk
    | _ => exact ⟨hl, hk⟩
  | next =>
    cases position with
    | resolve =>
      refine ⟨hl, ?_⟩
      dsimp only [advance]
      by_cases hw : IsDigest want
      · rw [if_pos hw]
        exact hw
      · rw [if_neg hw]
        trivial
    | testImage =>
      refine ⟨hl, ?_⟩
      dsimp only [advance]
      split <;> exact hk
    | testMarker =>
      refine ⟨hl, ?_⟩
      dsimp only [advance]
      split <;> exact hk
    | catMarker => exact ⟨hl, hk⟩
    | statImage recorded =>
      refine ⟨hl, ?_⟩
      dsimp only [advance]
      by_cases hm : recorded = want ++ ' ' :: statSize d.image
      · rw [if_pos hm]
        obtain ⟨hmarker, hsome⟩ := hs hm
        obtain ⟨c, hc⟩ := Option.isSome_iff_exists.mp hsome
        refine ⟨hk, ?_⟩
        dsimp only
        rw [hc]
        exact congrArg some (sha256sum_of_linked hl hk (hm ▸ hmarker) hc)
      · rw [if_neg hm]
        exact hk
    | echoCached => exact ⟨hl, trivial⟩
    | makeDir => exact ⟨hl, hk⟩
    | testAbsent =>
      refine ⟨hl, ?_⟩
      dsimp only [advance]
      split <;> exact hk
    | curl left => cases left <;> exact ⟨hl, by first | exact hk | trivial⟩
    | movePart =>
      dsimp only [advance]
      cases hp : d.part with
      | none => exact ⟨hl, trivial⟩
      | some c =>
        refine ⟨fun c' hc' => ?_, hk⟩
        obtain rfl := Option.mem_some_iff.mp hc'
        exact hs _ hp
    | sum => exact ⟨hl, hk, rfl⟩
    | compare got =>
      refine ⟨hl, ?_⟩
      obtain ⟨hw, hgot⟩ := hk
      dsimp only at hw hgot
      dsimp only [advance]
      by_cases he : got = want
      · rw [if_pos he]
        cases looked with
        | none =>
          -- no digest is the empty text
          rw [he] at hgot
          exact absurd (hgot ▸ hw.1) (by simp)
        | some c => exact ⟨hw, congrArg some (hgot.symm.trans he)⟩
      · rw [if_neg he]
        exact hw
    | moveAside =>
      dsimp only [advance]
      cases d.image with
      | none => exact ⟨hl, trivial⟩
      | some c => exact ⟨fun c' hc' => absurd hc' (Option.not_mem_none c'), trivial⟩
    | statSize => exact ⟨hl, hk⟩
    | writeMarker size =>
      obtain ⟨hw, hlooked⟩ := hk
      refine ⟨fun c hc => ?_, hw, hlooked⟩
      have himage : d.image = looked := hs
      dsimp only [advance] at hc
      rw [himage] at hc
      dsimp only at hlooked
      rw [Option.mem_def.mp hc] at hlooked
      exact not_stale_written hw (Option.some.inj hlooked)
    | echoDownloaded => exact ⟨hl, trivial⟩
    | ended outcome => exact ⟨hl, trivial⟩

/-- **The invariant** of the host. -/
structure Inv (sha256sum : Bytes → Text) (s : Host ι) : Prop where
  linked : Linked sha256sum s.disk
  knows : ∀ i, Knows sha256sum (s.runs i)

variable {s : Host ι} {a : ι × Action}

/-- **A sound step keeps the invariant.** -/
theorem Inv.step (h : Inv sha256sum s) (hs : Sound sha256sum s a) : Inv sha256sum (step sha256sum s a) := by
  obtain ⟨hl, hk⟩ := advance_spec h.linked (h.knows a.1) hs
  refine ⟨hl, fun i => ?_⟩
  unfold Image.step
  dsimp only
  by_cases hi : i = a.1
  · subst hi
    rw [Function.update_self]
    exact hk
  · rw [Function.update_of_ne hi]
    exact h.knows i

/-- **A sound step that ends its run well** finds the image it was asked for. -/
theorem verified_of_inv (h : Inv sha256sum s) (hs : Sound sha256sum s a) : Verified sha256sum s a := by
  rintro ⟨hposition, ha⟩
  have hk := h.knows a.1
  unfold Sound SoundStep at hs
  unfold Knows at hk
  unfold Image.step advance
  rw [ha] at hs ⊢
  rcases hposition with hp | hp <;> rw [hp] at hs hk ⊢ <;> exact hs ▸ hk.2

/-- **A base image is only used once it matches its checksum**: in runs whose steps are sound, over a
disk whose marker does not vouch for another content, a run that ends well leaves the image it was asked
for. -/
theorem verified_of_sound {disk : Disk} {asked : ι → Text × List Text}
    (h₀ : ∀ c ∈ disk.image, ¬ Stale sha256sum disk.marker c)
    (h : Reached (Sound sha256sum) (step sha256sum) (start disk asked) s) (hs : Sound sha256sum s a) :
    Verified sha256sum s a := by
  have hstart : Inv sha256sum (start disk asked) := ⟨h₀, fun _ => trivial⟩
  exact verified_of_inv (h.invariant hstart fun _ _ hi hstep => hi.step hstep) hs

end Invariant

/-! ## Runs for two digests -/

/-- The digests of the contents `a` and `b`. -/
def digests (content : Bytes) : Text :=
  if content = [97] then "ca978112ca1bbdcafac231b39a23dc4da786eff8147c4e72b9807785afee48bb".toList
  else if content = [98] then
    "3e23e8160039594a33894f6564e1b1348bbd7a0088d42c4acb73eeaed59c009d".toList
  else []

/-- Four runs: the first and the last are asked for `a`, the two between them for `b`. -/
def fourRuns (i : Nat) : Text × List Text :=
  (digests (if i = 1 ∨ i = 2 then [98] else [97]), ["https://mirror/image".toList])

/-- The commands of a run, one after the other. -/
def commands (i n : Nat) : List (Nat × Action) := List.replicate n (i, .next)

/-- A run that finds no image and downloads this one, up to the move into place. -/
def downloads (i : Nat) (content : Bytes) : List (Nat × Action) :=
  commands i 4 ++ [(i, .curl content true)] ++ commands i 1

/-- The host after some steps, where the image was never fetched. -/
def fetched (steps : List (Nat × Action)) : Host Nat :=
  steps.foldl (step digests) (start ⟨none, none, none, none⟩ fourRuns)

/-- The image is downloaded, and then recognised by its marker. -/
theorem verified_of_sound_again :
    Verified digests (fetched (downloads 0 [97] ++ commands 0 5 ++ commands 3 5)) (3, .next) ∧
      EndsWell (fetched (downloads 0 [97] ++ commands 0 5 ++ commands 3 5)) (3, .next) :=
  ⟨verified_of_sound (by decide) (Reached.start.run (by decide)) (by decide),
    by decide⟩

/-- **A marker outlives its image**: the image of the first run is moved aside by the second, which is
asked for another; the third is interrupted once its download is in place, and the last run takes that
for the image the marker was written for. -/
theorem fetch_trusts_stale_marker :
    let steps := downloads 0 [97] ++ commands 0 5 ++ commands 1 10 ++ downloads 2 [98] ++
      [(2, .interrupt)] ++ commands 3 5
    Reached (fun _ _ => True) (step digests) (start ⟨none, none, none, none⟩ fourRuns)
        (fetched steps) ∧
      EndsWell (fetched steps) (3, .next) ∧ ¬ Verified digests (fetched steps) (3, .next) := by
  refine ⟨Reached.start.run (by decide), by decide, fun h => ?_⟩
  exact absurd (h (by decide)) (by decide)

end LabInABox.Image
