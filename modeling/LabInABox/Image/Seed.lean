import Mathlib.Data.Finset.Insert
import Mathlib.Data.Fintype.Defs
import Mathlib.Logic.Function.Basic
import LabInABox.Run
import LabInABox.Text.Fields

/-!
# Cloud-init seeds built at the same time

Model of the remote script of `push_provisioning_files` (`libs/backends.py`), which builds the cidata
image of a VM on the hypervisor, as the workers of `phase_create_vms` (`scripts/setup_lab.py`) run it
for several VMs at once.

* A step is one command of one script: a `cp` into `/tmp`, the `rm` of the old image, the read of one
  part by `mkisofs`, the end of `mkisofs`, the `mv`. The steps of the scripts interleave in any order.
* `mkisofs` ends when a part is missing, and the script with it.
* What a script copies is what its glob gave, each file with its content: the files of any VM whose
  name starts with this one's may be among them.

Results:
* `eq_fileName_of_dest`: of the files a glob gives, only the VM's own go to the names that `mkisofs`
  reads, whatever the other VMs are called.
* `image_of_clear`: where no part is copied over one that another script has yet to read, every image
  holds its VM's own seed.
* `seeds_mixed`: two VMs, one of which gets the seed of the other.
-/

namespace LabInABox.Image.Seed

open Text

/-! ## Files -/

/-- The parts of a seed. -/
inductive Part
  | userData
  | metaData
  | networkConfig
  deriving DecidableEq

instance Part.fintype : Fintype Part :=
  ⟨{.userData, .metaData, .networkConfig}, fun p => by cases p <;> simp⟩

/-- The name of a part under `/tmp`. -/
def Part.name : Part → Text
  | userData => "user-data".toList
  | metaData => "meta-data".toList
  | networkConfig => "network-config".toList

/-- What the files of the provisioning directory are of: the parts, and the templates beside them. -/
def kinds : List Text :=
  [Part.userData.name, Part.metaData.name, Part.networkConfig.name, "network-config-dhcp".toList,
    "network-config-dhcp-nomac".toList]

/-- `"{}_{}".format(vm_name, kind)`. -/
def fileName (vm kind : Text) : Text := vm ++ '_' :: kind

/-- `${i/pattern/}`: without the first occurrence of the pattern. -/
def dropFirst (pattern : Text) : Text → Text
  | [] => []
  | c :: cs => if pattern <+: c :: cs then (c :: cs).drop pattern.length else c :: dropFirst pattern cs

/-- Where the script of `vm` copies a file to: `/tmp/${i/{vm}_/}`. -/
def dest (vm i : Text) : Text := dropFirst (vm ++ ['_']) i

/-- `/tmp/ci_{vm}.iso`, under `/tmp`. -/
def tmpIso (vm : Text) : Text := "ci_".toList ++ vm ++ ".iso".toList

/-- A VM whose files are pushed: its seed, and what the glob `{vm}*` gives on the hypervisor. -/
structure Push where
  vm : Text
  seed : Part → Text
  listed : List (Text × Text)
  own : ∀ p, (fileName vm p.name, seed p) ∈ listed
  nodup : (listed.map Prod.fst).Nodup
  ofVm : ∀ e ∈ listed, ∃ other, ∃ kind ∈ kinds, e.1 = fileName other kind

/-- The pushes to one hypervisor, one of each VM. -/
structure Pushes where
  list : List Push
  nodup : (list.map Push.vm).Nodup

/-! ## Scripts -/

/-- Where a script is. -/
inductive Phase
  | copying (left : List (Text × Text))
  | reading (left : List Part)
  | moving
  | over
  deriving DecidableEq

/-- A script on the hypervisor, and what its `mkisofs` has read. -/
structure Worker where
  phase : Phase
  read : Part → Option Text

/-- The hypervisor: the files under `/tmp`, the images being built there and those in place. -/
structure Host where
  tmp : Text → Option Text
  built : Text → Option (Part → Option Text)
  iso : Text → Option (Part → Option Text)
  workers : Text → Worker

/-- The next command of the script of `vm`. -/
def step (s : Host) (vm : Text) : Host :=
  match (s.workers vm).phase with
  | .copying (e :: left) =>
    { s with
      tmp := Function.update s.tmp (dest vm e.1) (some e.2)
      workers := Function.update s.workers vm ⟨.copying left, (s.workers vm).read⟩ }
  | .copying [] =>
    { s with
      iso := Function.update s.iso vm none
      workers := Function.update s.workers vm
        ⟨.reading [.userData, .metaData, .networkConfig], fun _ => none⟩ }
  | .reading (p :: left) =>
    match s.tmp p.name with
    | some t =>
      { s with
        workers := Function.update s.workers vm
          ⟨.reading left, Function.update (s.workers vm).read p (some t)⟩ }
    | none => { s with workers := Function.update s.workers vm ⟨.over, (s.workers vm).read⟩ }
  | .reading [] =>
    { s with
      built := Function.update s.built vm (some (s.workers vm).read)
      workers := Function.update s.workers vm ⟨.moving, (s.workers vm).read⟩ }
  | .moving =>
    { s with
      built := Function.update s.built vm none
      iso := Function.update s.iso vm (s.built vm)
      workers := Function.update s.workers vm ⟨.over, (s.workers vm).read⟩ }
  | .over => s

/-- The hypervisor as the scripts start, with whatever earlier runs left there. -/
def start (pushes : Pushes) (tmp : Text → Option Text) (built iso : Text → Option (Part → Option Text)) :
    Host where
  tmp := tmp
  built := built
  iso := iso
  workers vm :=
    match pushes.list.find? fun push => decide (push.vm = vm) with
    | some push => ⟨.copying push.listed, fun _ => none⟩
    | none => ⟨.over, fun _ => none⟩

/-- The image of every VM whose script is over holds its own seed. -/
def SeedsKept (pushes : Pushes) (s : Host) : Prop :=
  ∀ push ∈ pushes.list, (s.workers push.vm).phase = .over →
    s.iso push.vm = some fun p => some (push.seed p)

/-! ## The condition on a step -/

/-- The script of `vm` has copied the part, and has yet to read it. -/
def Awaits (s : Host) (vm : Text) (p : Part) : Prop :=
  match (s.workers vm).phase with
  | .copying left => ∀ e ∈ left, dest vm e.1 ≠ p.name
  | .reading left => p ∈ left
  | .moving | .over => False

/-- The next command of the script copies no part over one that the script of another VM awaits. -/
def Clear (pushes : Pushes) (s : Host) (vm : Text) : Prop :=
  match (s.workers vm).phase with
  | .copying (e :: _) => ∀ p : Part, dest vm e.1 = p.name →
      ∀ push ∈ pushes.list, push.vm ≠ vm → ¬ Awaits s push.vm p
  | _ => True

instance decidableAwaits (s : Host) (vm : Text) (p : Part) : Decidable (Awaits s vm p) := by
  unfold Awaits
  split <;> infer_instance

instance decidableClear (pushes : Pushes) (s : Host) (vm : Text) : Decidable (Clear pushes s vm) := by
  unfold Clear
  split <;> infer_instance

/-! ## Where the files go -/

theorem dropFirst_cases (pattern i : Text) : dropFirst pattern i = i ∨
    ∃ a b, i = a ++ (pattern ++ b) ∧ dropFirst pattern i = a ++ b := by
  induction i with
  | nil => exact Or.inl rfl
  | cons c cs ih =>
    unfold dropFirst
    split
    · rename_i h
      obtain ⟨b, hb⟩ := h
      refine Or.inr ⟨[], b, hb.symm, ?_⟩
      rw [← hb, List.drop_left]
      rfl
    · rcases ih with ih | ⟨a, b, hi, hd⟩
      · exact Or.inl (by rw [ih])
      · exact Or.inr ⟨c :: a, b, by rw [hi]; rfl, by rw [hd]; rfl⟩

theorem not_mem_kind : ∀ kind ∈ kinds, '_' ∉ kind := by decide

theorem name_mem_kinds (p : Part) : p.name ∈ kinds := by
  cases p <;> decide

theorem name_of_suffix : ∀ kind ∈ kinds, ∀ p : Part, kind <:+ p.name → kind = p.name := by decide

theorem dest_fileName (vm kind : Text) : dest vm (fileName vm kind) = kind := by
  unfold dest fileName
  have happ : vm ++ '_' :: kind = vm ++ ['_'] ++ kind := List.append_cons _ _ _
  rw [happ]
  cases h : vm ++ ['_'] with
  | nil => exact absurd h (by simp)
  | cons c cs =>
    rw [List.cons_append, dropFirst, ← List.cons_append,
      if_pos (List.prefix_append (c :: cs) kind)]
    exact List.drop_left

/-- What follows the last underscore. -/
theorem eq_of_append_underscore {a b kind other : Text} (hb : '_' ∉ b) (hk : '_' ∉ kind)
    (h : a ++ '_' :: b = other ++ '_' :: kind) : b = kind := by
  rcases List.append_eq_append_iff.mp h with ⟨l, _, hl⟩ | ⟨l, _, hl⟩
  · cases l with
    | nil => exact (List.cons.inj hl).2
    | cons c l =>
      refine absurd ?_ hb
      rw [(List.cons.inj hl).2]
      exact List.mem_append_right _ List.mem_cons_self
  · cases l with
    | nil => exact (List.cons.inj hl).2.symm
    | cons c l =>
      refine absurd ?_ hk
      rw [(List.cons.inj hl).2]
      exact List.mem_append_right _ List.mem_cons_self

/-- **The files that `mkisofs` reads** are the VM's own, whatever the other VMs are called. -/
theorem eq_fileName_of_dest {vm i : Text} {p : Part}
    (hi : ∃ other, ∃ kind ∈ kinds, i = fileName other kind) (h : dest vm i = p.name) :
    i = fileName vm p.name := by
  obtain ⟨other, kind, hk, rfl⟩ := hi
  have hp := not_mem_kind p.name (name_mem_kinds p)
  unfold dest at h
  rcases dropFirst_cases (vm ++ ['_']) (fileName other kind) with hd | ⟨a, b, hi, hd⟩
  · rw [hd] at h
    refine absurd ?_ hp
    rw [← h]
    exact List.mem_append_right _ List.mem_cons_self
  · rw [hd] at h
    have hb : '_' ∉ b := fun hm => hp (h ▸ List.mem_append_right a hm)
    have hkb : b = kind := by
      refine @eq_of_append_underscore (a ++ vm) b kind other hb (not_mem_kind kind hk) ?_
      rw [List.append_assoc, ← List.singleton_append (l := b), ← List.append_assoc vm, ← hi]
      rfl
    subst hkb
    have hname : b = p.name := name_of_suffix b hk p ⟨a, h⟩
    have ha : a = [] := List.append_cancel_right (h.trans hname.symm)
    rw [hi, ha, hname, List.nil_append, List.append_assoc]
    rfl

/-- No file that is copied is called like an image that is being built. -/
theorem dest_ne_tmpIso {vm other i : Text} (hi : ∃ other, ∃ kind ∈ kinds, i = fileName other kind) :
    dest vm i ≠ tmpIso other := by
  have hlast : ∀ kind ∈ kinds, kind.getLast? ≠ some 'o' ∧ kind ≠ [] := by decide
  obtain ⟨w, kind, hk, rfl⟩ := hi
  intro h
  have hiso : (tmpIso other).getLast? = some 'o' := by
    unfold tmpIso
    rw [List.getLast?_append_of_ne_nil _ (by decide)]
    rfl
  have hl : (dest vm (fileName w kind)).getLast? = kind.getLast? := by
    unfold dest
    rcases dropFirst_cases (vm ++ ['_']) (fileName w kind) with hd | ⟨a, b, hf, hd⟩
    · rw [hd, fileName, List.append_cons, List.getLast?_append_of_ne_nil _ (hlast kind hk).2]
    · have hne : b ≠ [] := by
        rintro rfl
        have hg := congrArg List.getLast? hf
        rw [fileName, List.append_cons, List.getLast?_append_of_ne_nil _ (hlast kind hk).2,
          List.append_nil, ← List.append_assoc, List.getLast?_append_of_ne_nil _ (by simp)] at hg
        exact not_mem_kind kind hk (List.mem_of_getLast? hg)
      have hg := congrArg List.getLast? hf
      rw [fileName, List.append_cons, List.getLast?_append_of_ne_nil _ (hlast kind hk).2,
        ← List.append_assoc, List.getLast?_append_of_ne_nil _ hne] at hg
      rw [hd, List.getLast?_append_of_ne_nil _ hne, hg]
  rw [h, hiso] at hl
  exact (hlast kind hk).1 hl.symm

/-! ## Steps -/

section Steps

variable {pushes : Pushes} {s s' : Host} {vm : Text} {push : Push}

/-- A step is one script's: those of the other VMs, and their images, are as they were. -/
theorem step_other (s : Host) {vm other : Text} (h : other ≠ vm) :
    (step s vm).workers other = s.workers other ∧ (step s vm).built other = s.built other ∧
      (step s vm).iso other = s.iso other := by
  unfold step
  split
  · exact ⟨Function.update_of_ne h _ _, rfl, rfl⟩
  · exact ⟨Function.update_of_ne h _ _, rfl, Function.update_of_ne h _ _⟩
  · split
    · exact ⟨Function.update_of_ne h _ _, rfl, rfl⟩
    · exact ⟨Function.update_of_ne h _ _, rfl, rfl⟩
  · exact ⟨Function.update_of_ne h _ _, Function.update_of_ne h _ _, rfl⟩
  · exact ⟨Function.update_of_ne h _ _, Function.update_of_ne h _ _, Function.update_of_ne h _ _⟩
  · exact ⟨rfl, rfl, rfl⟩

/-- What a step writes under `/tmp` is a file its script copies. -/
theorem step_tmp (s : Host) (vm : Text) : (step s vm).tmp = s.tmp ∨
    ∃ e left, (s.workers vm).phase = .copying (e :: left) ∧
      (step s vm).tmp = Function.update s.tmp (dest vm e.1) (some e.2) := by
  unfold step
  cases hp : (s.workers vm).phase with
  | copying left =>
    cases left with
    | nil => exact Or.inl rfl
    | cons e left => exact Or.inr ⟨e, left, rfl, rfl⟩
  | reading left =>
    cases left with
    | nil => exact Or.inl rfl
    | cons p left =>
      dsimp only
      cases s.tmp p.name <;> exact Or.inl rfl
  | moving => exact Or.inl rfl
  | «over» => exact Or.inl rfl

/-! ## The invariant -/

/-- **The invariant** of one push: every part is still to be copied, or waits under `/tmp`, or has been
read. -/
def Keeps (s : Host) (push : Push) : Prop :=
  match (s.workers push.vm).phase with
  | .copying left => left <:+ push.listed ∧ ∀ p : Part,
      (fileName push.vm p.name, push.seed p) ∈ left ∨ s.tmp p.name = some (push.seed p)
  | .reading left => ∀ p : Part, (p ∈ left → s.tmp p.name = some (push.seed p)) ∧
      (p ∉ left → (s.workers push.vm).read p = some (push.seed p))
  | .moving => s.built push.vm = some fun p => some (push.seed p)
  | .over => s.iso push.vm = some fun p => some (push.seed p)

/-- A file that goes to the name of a part is the VM's own. -/
theorem Push.eq_own {e : Text × Text} (he : e ∈ push.listed) {p : Part}
    (h : dest push.vm e.1 = p.name) : e = (fileName push.vm p.name, push.seed p) := by
  have h₁ := eq_fileName_of_dest (push.ofVm e he) h
  exact List.inj_on_of_nodup_map push.nodup he (push.own p) h₁

/-- A part that waits under `/tmp` is awaited. -/
theorem awaits_of_copying {left : List (Text × Text)} (hp : (s.workers push.vm).phase = .copying left)
    (hs : left <:+ push.listed) {p : Part} (h : (fileName push.vm p.name, push.seed p) ∉ left) :
    Awaits s push.vm p := by
  unfold Awaits
  rw [hp]
  intro e he hd
  exact h (push.eq_own (hs.mem he) hd ▸ he)

/-- **A step of another script** that is clear leaves what the push awaits. -/
theorem Keeps.step_other (h : Keeps s push) (hm : push ∈ pushes.list) (hne : push.vm ≠ vm)
    (hc : Clear pushes s vm) : Keeps (step s vm) push := by
  obtain ⟨hw, hb, hi⟩ := Seed.step_other s hne
  have htmp : ∀ p, Awaits s push.vm p → (step s vm).tmp p.name = s.tmp p.name := by
    intro p ha
    rcases step_tmp s vm with ht | ⟨e, left, hp, ht⟩
    · rw [ht]
    · rw [ht, Function.update_of_ne]
      intro hd
      unfold Clear at hc
      rw [hp] at hc
      exact hc p hd.symm push hm hne ha
  unfold Keeps at h ⊢
  rw [hw, hb, hi]
  cases hp : (s.workers push.vm).phase with
  | copying left =>
    rw [hp] at h
    refine ⟨h.1, fun p => ?_⟩
    by_cases hin : (fileName push.vm p.name, push.seed p) ∈ left
    · exact Or.inl hin
    · rw [htmp p (awaits_of_copying hp h.1 hin)]
      exact Or.inr ((h.2 p).resolve_left hin)
  | reading left =>
    rw [hp] at h
    refine fun p => ⟨fun hin => ?_, (h p).2⟩
    have ha : Awaits s push.vm p := by
      unfold Awaits
      rw [hp]
      exact hin
    rw [htmp p ha]
    exact (h p).1 hin
  | moving => rwa [hp] at h
  | «over» => rwa [hp] at h

/-- **A step of its own script** goes on with its own seed. -/
theorem Keeps.step_own (h : Keeps s push) : Keeps (step s push.vm) push := by
  unfold Keeps at h
  cases hp : (s.workers push.vm).phase with
  | copying left =>
    rw [hp] at h
    cases left with
    | nil =>
      have hs : step s push.vm =
          { s with
            iso := Function.update s.iso push.vm none
            workers := Function.update s.workers push.vm
              ⟨.reading [.userData, .metaData, .networkConfig], fun _ => none⟩ } := by
        unfold step
        rw [hp]
      unfold Keeps
      rw [hs]
      dsimp only
      rw [Function.update_self]
      refine fun p => ⟨fun _ => (h.2 p).resolve_left List.not_mem_nil, fun hno => ?_⟩
      exact absurd (by cases p <;> simp) hno
    | cons e left =>
      have hs : step s push.vm =
          { s with
            tmp := Function.update s.tmp (dest push.vm e.1) (some e.2)
            workers := Function.update s.workers push.vm
              ⟨.copying left, (s.workers push.vm).read⟩ } := by
        unfold step
        rw [hp]
      unfold Keeps
      rw [hs]
      dsimp only
      rw [Function.update_self]
      refine ⟨(List.suffix_cons e left).trans h.1, fun p => ?_⟩
      by_cases hd : dest push.vm e.1 = p.name
      · rw [hd, Function.update_self, push.eq_own (h.1.mem List.mem_cons_self) hd]
        exact Or.inr rfl
      · rw [Function.update_of_ne (Ne.symm hd)]
        refine (h.2 p).imp_left fun hin => (List.mem_cons.mp hin).resolve_left ?_
        rintro rfl
        exact hd (dest_fileName push.vm p.name)
  | reading left =>
    rw [hp] at h
    cases left with
    | nil =>
      have hread : (s.workers push.vm).read = fun p => some (push.seed p) :=
        funext fun p => (h p).2 List.not_mem_nil
      have hs : step s push.vm =
          { s with
            built := Function.update s.built push.vm (some (s.workers push.vm).read)
            workers := Function.update s.workers push.vm
              ⟨.moving, (s.workers push.vm).read⟩ } := by
        unfold step
        rw [hp]
      unfold Keeps
      rw [hs]
      dsimp only
      rw [Function.update_self]
      dsimp only
      rw [Function.update_self, hread]
    | cons q left =>
      have hq := (h q).1 List.mem_cons_self
      have hs : step s push.vm =
          { s with
            workers := Function.update s.workers push.vm
              ⟨.reading left, Function.update (s.workers push.vm).read q (some (push.seed q))⟩ } := by
        unfold step
        rw [hp]
        dsimp only
        rw [hq]
      unfold Keeps
      rw [hs]
      dsimp only
      rw [Function.update_self]
      refine fun p => ⟨fun hin => (h p).1 (List.mem_cons_of_mem _ hin), fun hno => ?_⟩
      dsimp only
      by_cases hpq : p = q
      · rw [hpq, Function.update_self]
      · rw [Function.update_of_ne hpq]
        exact (h p).2 (List.not_mem_cons_of_ne_of_not_mem hpq hno)
  | moving =>
    rw [hp] at h
    have hs : step s push.vm =
        { s with
          built := Function.update s.built push.vm none
          iso := Function.update s.iso push.vm (s.built push.vm)
          workers := Function.update s.workers push.vm ⟨.over, (s.workers push.vm).read⟩ } := by
      unfold step
      rw [hp]
    unfold Keeps
    rw [hs]
    dsimp only
    rw [Function.update_self]
    dsimp only
    rw [Function.update_self, h]
  | «over» =>
    have hs : step s push.vm = s := by
      unfold step
      rw [hp]
    rw [hs]
    unfold Keeps
    exact h

theorem keeps_start (tmp : Text → Option Text) (built iso : Text → Option (Part → Option Text))
    (hm : push ∈ pushes.list) : Keeps (start pushes tmp built iso) push := by
  have hf : (pushes.list.find? fun other => decide (other.vm = push.vm)) = some push := by
    cases hf : pushes.list.find? fun other => decide (other.vm = push.vm) with
    | none => exact absurd (decide_eq_true rfl) (List.find?_eq_none.mp hf push hm)
    | some other =>
      have hvm : other.vm = push.vm := by simpa using List.find?_some hf
      rw [List.inj_on_of_nodup_map pushes.nodup (List.mem_of_find?_eq_some hf) hm hvm]
  unfold Keeps start
  dsimp only
  rw [hf]
  exact ⟨List.suffix_refl _, fun p => Or.inl (push.own p)⟩

end Steps

/-! ## Every run -/

/-- **Seeds are kept apart** in every run where no part is copied over one that another script has yet
to read: the image of every VM whose script is over holds its own seed. -/
theorem image_of_clear (pushes : Pushes) (tmp : Text → Option Text)
    (built iso : Text → Option (Part → Option Text)) (s : Host)
    (h : Reached (Clear pushes) step (start pushes tmp built iso) s) : SeedsKept pushes s := by
  have hinv : ∀ push ∈ pushes.list, Keeps s push :=
    h.invariant (I := fun s => ∀ push ∈ pushes.list, Keeps s push)
      (fun push hm => keeps_start tmp built iso hm) fun s vm hs hc push hm => by
        by_cases hvm : push.vm = vm
        · subst hvm
          exact (hs push hm).step_own
        · exact (hs push hm).step_other hm hvm hc
  intro push hm hover
  have hk := hinv push hm
  unfold Keeps at hk
  rwa [hover] at hk

/-- A VM whose files are the only ones its glob gives. -/
def Push.alone (vm : Text) (seed : Part → Text) : Push where
  vm := vm
  seed := seed
  listed := [Part.userData, .metaData, .networkConfig].map fun p => (fileName vm p.name, seed p)
  own p := by cases p <;> simp
  nodup := by
    have hinj : Function.Injective (fileName vm) := fun _ _ h => (List.cons.inj (List.append_cancel_left h)).2
    rw [List.map_map]
    exact List.Nodup.map_on (fun p _ q _ h => by
      have hn := hinj h
      revert hn
      cases p <;> cases q <;> decide) (by decide)
  ofVm e he := by
    obtain ⟨p, _, rfl⟩ := List.mem_map.mp he
    exact ⟨vm, p.name, name_mem_kinds p, rfl⟩

/-- Two VMs. -/
def twoPushes : Pushes where
  list := [.alone "vm1".toList fun _ => "first".toList, .alone "vm2".toList fun _ => "second".toList]
  nodup := by decide

/-- A hypervisor with nothing on it, as the scripts of both start. -/
def twoScripts : Host := start twoPushes (fun _ => none) (fun _ => none) fun _ => none

/-- One script after the other: each makes nine steps. -/
def inTurn : List Text := List.replicate 9 "vm1".toList ++ List.replicate 9 "vm2".toList

theorem image_of_clear_in_turn : SeedsKept twoPushes (inTurn.foldl step twoScripts) ∧
    ((inTurn.foldl step twoScripts).workers "vm2".toList).phase = .over :=
  ⟨image_of_clear twoPushes _ _ _ _ (Reached.start.run (by decide)), by decide⟩

/-- Both scripts copy, and then both build. -/
def together : List Text :=
  List.replicate 3 "vm1".toList ++ List.replicate 3 "vm2".toList ++ List.replicate 6 "vm1".toList ++
    List.replicate 6 "vm2".toList

/-- **The first VM gets the seed of the second.** -/
theorem seeds_mixed : ¬ SeedsKept twoPushes (together.foldl step twoScripts) := by
  intro h
  have hover : ((together.foldl step twoScripts).workers "vm1".toList).phase = .over := by decide
  have hiso := h (.alone "vm1".toList fun _ => "first".toList) List.mem_cons_self hover
  have hgot : ((together.foldl step twoScripts).iso "vm1".toList).map (fun parts => parts .userData) =
      some (some "second".toList) := by decide
  change (together.foldl step twoScripts).iso "vm1".toList = some fun _ => some "first".toList at hiso
  rw [hiso] at hgot
  exact absurd (Option.some.inj (Option.some.inj hgot)) (by decide)

end LabInABox.Image.Seed
