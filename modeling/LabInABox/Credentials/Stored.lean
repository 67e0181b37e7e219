import LabInABox.Credentials.Ledger
import LabInABox.Jobs.Names

/-!
# What the helper stores

What is loaded from the directory of the helper after any commands, by the names that lab definitions use.

* The directory is the first of those that are searched, and empty at first.
* Loading is the one of `Store`: with the passphrase of an account, if it has one.

Results:
* `tryLoad_stored`: an account is loaded from its file as it was entered.
* `stored_of_run`: so after any commands, and a name without an account is not found.
* `unchanged_of_run`: a file keeps its text until it is deleted.
* `removable_iff`: which of the files that are written can be deleted.
-/

namespace LabInABox.Credentials.Helper

open Text Simulation
open Jobs.Status (safeName isNameChar nameRe_cons safeName_iff dots_append nameRe_all)
open Parsed (suffix)

variable (lib : Library) (repr : Text → Text)

/-! ## Loading -/

/-- The files as loading sees them: the directory and others. -/
def filesOf (place : Text) (dir : Dir) (others : Files) : Files :=
  fun d n => if d = place then dir.get n else others d n

/-- The passphrase of an account is given, if it has one. -/
def Sealed.OpenedBy (s : Session) : Sealed → Prop
  | .plain => True
  | .whole passphrase => s.Gives passphrase
  | .each passphrase => s.Gives passphrase

/-- What loading an account gives: what was entered. -/
def Account.loaded (a : Account) (k : Text) : Option Value :=
  if k = a.kind.key then some (.scalar (.text a.entry))
  else (a.fields.get k).map fun t => .scalar (.text t)

section Loading

variable {lib} {place : Text} {dir : Dir} {others : Files} {dirs : List Text} {s : Session} {cache : Cache}
  {a : Account} {name : Text} {data : Data}

theorem reaches_head (files : Files) (place : Text) (dirs : List Text) (name : Text) :
    Reaches files (place :: dirs) place name := by
  refine ⟨List.mem_cons_self, fun d hd => ?_⟩
  rw [List.takeWhile_cons_of_neg (by simp)] at hd
  cases hd

/-- A file that is there may be written again. -/
theorem filesOf_write {n text : Text} (h : dir.get n = some text) :
    (filesOf place dir others).write place n text = filesOf place dir others := by
  funext d n'
  unfold Files.write
  split
  · rename_i hdn
    rw [hdn.1, hdn.2, filesOf, if_pos rfl, h]
  · rfl

theorem tryLoad_filesOf (h : dir.get (name ++ ".yaml".toList) = some (lib.dump data)) (kind : Kind) :
    tryLoad lib kind (filesOf place dir others) (place :: dirs) s cache name =
      loadData lib kind s cache (place ++ "/".toList ++ name ++ ".yaml".toList) name data := by
  rw [← filesOf_write h]
  exact tryLoad_write (reaches_head _ _ _ _) data

/-- Encrypted fields are loaded as the plain ones. -/
theorem loadData_each {passphrase : Text} {r : Text → Nonces} (hs : s.Gives passphrase)
    (h : encryptFields lib passphrase r a.sensitive (a.payload lib) = some data) (path : Text)
    (get : Text → Option Value) :
    (loadData lib a.kind s cache path name data).1.Is get ↔
      (loadData lib a.kind s cache path name (a.payload lib)).1.Is get := by
  obtain ⟨data', hd, hkeys, hrest, henc⟩ := encryptFields_payload lib a.toFilled passphrase r
  obtain rfl := Option.some.inj (h.symm.trans hd)
  have hvalue (k : Text) : ((a.payload lib).get k).bind Value.envelope = none :=
    Option.isSome_eq_false_iff.mp (isEnvelope_payload a.toFilled k) |> Option.isNone_iff_eq_none.mp
  have hread (k : Text) : ReadAs lib.suite passphrase (data.get k) ((a.payload lib).get k) := by
    by_cases hk : k ∈ a.sensitive
    · obtain ⟨t, ht, he⟩ := henc k hk
      exact Or.inr ⟨r k, t, he, ht⟩
    · exact Or.inl ⟨hrest k hk, hvalue k⟩
  have hmarkers (k : Text) (hm : a.kind.isMarker k = true) : data.get k = (a.payload lib).get k := by
    refine hrest k fun hk => ?_
    obtain ⟨_, _, _, hfield, _, _⟩ := a.field (List.mem_of_mem_filter hk)
    rw [hfield] at hm
    cases hm
  have hwhole : (a.payload lib).get "encrypted".toList ≠ some (.scalar (.bool true)) := by
    have hplain : Fieldwise lib a (a.payload lib) := ⟨rfl, fun _ _ => rfl⟩
    rw [hplain.not_whole]
    rintro ⟨⟩
  rw [loadData_of_readAs (fun _ => hs) hkeys hread hmarkers hwhole,
    @loadData_of_readAs lib a.kind s cache passphrase (a.payload lib) (a.payload lib)
      (fun ⟨k, hk⟩ => absurd rfl hk) rfl (fun k => Or.inl ⟨rfl, hvalue k⟩) (fun _ _ => rfl) hwhole]

/-- What is written for an account is loaded as it. -/
theorem loadData_filePayload {encrypt : Option (Text × Nonces)} (hs : ∀ e, encrypt = some e → s.Gives e.1) :
    (loadData lib a.kind s cache (place ++ "/".toList ++ name ++ ".yaml".toList) name
      (filePayload lib a.kind a.entry a.fields encrypt)).1.Is a.loaded := by
  have h : (tryLoad lib a.kind (writeFile lib a.kind (fun _ _ => none) place (name ++ ".yaml".toList) a.entry
      a.fields encrypt) [place] s cache name).1.Is a.loaded :=
    tryLoad_writeFile (reaches_head (fun _ _ => none) place [] name) a.known a.named hs cache
  unfold writeFile at h
  rw [tryLoad_write (reaches_head (fun _ _ => none) place [] name)] at h
  exact h

/-- **An account is loaded** from its file. -/
theorem tryLoad_stored (hget : dir.get (name ++ ".yaml".toList) = some (lib.dump data))
    (h : a.StoredAs lib data) (hs : a.sealed.OpenedBy s) :
    (tryLoad lib a.kind (filesOf place dir others) (place :: dirs) s cache name).1.Is a.loaded := by
  rw [tryLoad_filesOf hget]
  unfold Account.StoredAs at h
  split at h
  · rw [h]
    exact loadData_filePayload fun e he => by cases he
  · rename_i passphrase heq
    rw [heq] at hs
    obtain ⟨r, hr⟩ := h
    rw [hr]
    refine loadData_filePayload fun e he => ?_
    rw [← Option.some.inj he]
    exact hs
  · rename_i passphrase heq
    rw [heq] at hs
    obtain ⟨r, hr⟩ := h
    rw [loadData_each hs hr]
    exact loadData_filePayload fun e he => by cases he

/-- The names that lead to a file. -/
theorem cloudAccountPath_filesOf {l : Ledger} (h : Agrees lib dir l) (name : Text) :
    cloudAccountPath (filesOf place dir others) [place] name =
      if name ++ ".yaml".toList ∈ l.keys then some (place, ".yaml".toList) else none := by
  have hget (ext : Text) : (filesOf place dir others place (name ++ ext)).isSome =
      decide (name ++ ext ∈ l.keys) := by
    rw [filesOf, if_pos rfl]
    by_cases hmem : name ++ ext ∈ l.keys
    · obtain ⟨t, ht⟩ := Obj.mem_keys_iff.mp ((h.mem_iff _).mpr hmem)
      rw [ht, decide_eq_true hmem]
      rfl
    · rw [Obj.not_mem_keys_iff.mp (mt (h.mem_iff _).mp hmem), decide_eq_false hmem]
      rfl
  have hother : ∀ ext ∈ [".yml", ".json", ".cfg"].map String.toList, name ++ ext ∉ l.keys := by
    intro ext hext hmem
    obtain ⟨s, _, hs⟩ := h.named _ hmem
    have hreverse := congrArg List.reverse hs
    rw [List.reverse_append, List.reverse_append] at hreverse
    simp only [List.map_cons, List.map_nil, List.mem_cons, List.not_mem_nil, or_false] at hext
    rcases hext with rfl | rfl | rfl <;> simp at hreverse
  have hyml := hother ".yml".toList (by decide)
  have hjson := hother ".json".toList (by decide)
  have hcfg := hother ".cfg".toList (by decide)
  unfold cloudAccountPath cloudAccountExts
  simp only [List.flatMap_cons, List.flatMap_nil, List.append_nil, List.map_cons, List.map_nil, List.find?_cons,
    List.find?_nil, hget, decide_eq_false hyml, decide_eq_false hjson, decide_eq_false hcfg]
  by_cases hyaml : name ++ ".yaml".toList ∈ l.keys
  · rw [decide_eq_true hyaml, if_pos hyaml]
  · rw [decide_eq_false hyaml, if_neg hyaml]

end Loading

/-! ## Runs -/

section Runs

variable (place : Text)

/-- The accounts after the commands. -/
def ledgerAfter (commands : List Command) : Ledger := (answering (Ledger.step repr place) Obj.empty commands).1

/-- The files after the commands, as loading sees them. -/
def filesAfter (commands : List Command) (others : Files) : Files :=
  filesOf place (answering (step lib repr place) Obj.empty commands).1 others

/-- **What is stored after a run**: from an empty directory the helper answers as the ledger, a name is found
where it has an account, and the account is loaded as it was entered. -/
theorem stored_of_run (commands : List Command) :
    (answering (step lib repr place) Obj.empty commands).2 =
        (answering (Ledger.step repr place) Obj.empty commands).2 ∧
      ∀ (name : Text) (others : Files),
        cloudAccountPath (filesAfter lib repr place commands others) [place] name =
          (if name ++ ".yaml".toList ∈ (ledgerAfter repr place commands).keys then some (place, ".yaml".toList)
            else none) ∧
        ∀ a, (ledgerAfter repr place commands).get (name ++ ".yaml".toList) = some a →
          ∀ (dirs : List Text) (s : Session) (cache : Cache), a.sealed.OpenedBy s →
            (tryLoad lib a.kind (filesAfter lib repr place commands others) (place :: dirs) s cache name).1.Is
              a.loaded := by
  obtain ⟨hagrees, hanswers⟩ := (helper_refines lib repr place).refines Agrees.empty commands
  refine ⟨hanswers, fun name others => ⟨cloudAccountPath_filesOf hagrees name, fun a ha dirs s cache hs => ?_⟩⟩
  obtain ⟨data, hstored, hget, _⟩ := hagrees.stored ha
  exact tryLoad_stored hget hstored hs

/-- An account that is entered, and encrypted later. -/
def sampleCommands : List Command :=
  [.add ⟨"cloud".toList, "hetzner".toList, "eu".toList, sampleFields, none⟩ ⟨[1], [2], [3]⟩,
    .encrypt "hetzner-eu.yaml".toList "correct horse".toList fun _ => ⟨[1], [2], [3]⟩]

theorem stored_of_run_sample :
    (tryLoad sampleLibrary .cloud
        (filesAfter sampleLibrary id "/creds".toList sampleCommands fun _ _ => none) ["/creds".toList]
        ⟨some "correct horse".toList, none⟩ (fun _ => none) "hetzner-eu.encrypted".toList).1.Is fun k =>
      if k = Kind.cloud.key then some (.scalar (.text "hetzner".toList))
      else (sampleFields.get k).map fun t => .scalar (.text t) := by
  exact ((stored_of_run sampleLibrary id "/creds".toList sampleCommands).2 "hetzner-eu.encrypted".toList
    fun _ _ => none).2 ⟨⟨.cloud, "hetzner".toList, [row "HETZNER_TOKEN" true true,
      row "HETZNER_LOCATION" false false], sampleFields, by decide, by decide⟩, .each "correct horse".toList⟩
    rfl [] _ _ (Or.inl (by decide))

/-- The names of the files that a command is to delete. -/
def Command.deletes : Command → List Text
  | .delete name => [name]
  | _ => []

/-- A command leaves the files that it is not to delete. -/
theorem get_step {dir : Dir} {n text : Text} (h : dir.get n = some text) (c : Command) (hc : n ∉ c.deletes) :
    (step lib repr place dir c).1.get n = some text := by
  have hkeys : n ∈ dir.keys := Obj.mem_keys_iff.mpr ⟨text, h⟩
  have hset {n' text' : Text} (hn : n' ∉ dir.keys) : (dir.set n' text').get n = some text := by
    have hne : n ≠ n' := by
      rintro rfl
      exact hn hkeys
    rw [Obj.get_set, if_neg hne, h]
  cases c with
  | list => exact h
  | add req r =>
    unfold step credentialsAdd
    dsimp only
    cases hv : vet repr (fun n => decide (n ∈ dir.keys)) req with
    | error e => exact h
    | ok v =>
      obtain ⟨_, _, _, _, _, hfree⟩ := vet_ok hv
      exact hset (of_decide_eq_false (hfree ".yaml".toList (by decide)))
  | encrypt name passphrase r =>
    unfold step credentialsEncrypt
    dsimp only
    cases credentialFile repr (fun n => decide (n ∈ dir.keys)) name with
    | some e => exact h
    | none =>
      dsimp only
      split_ifs with hshort hnone hout
      · exact h
      · exact h
      · exact h
      · cases encryptFields lib passphrase r (sensitivePlaintextFields (loadCredential lib dir name))
          (loadCredential lib dir name) with
        | none => exact h
        | some data => exact hset hout
  | delete name =>
    unfold step credentialsDelete
    dsimp only
    cases credentialFile repr (fun n => decide (n ∈ dir.keys)) name with
    | some e => exact h
    | none =>
      have hne : n ≠ name := fun heq => hc (List.mem_singleton.mpr heq)
      dsimp only
      rw [Obj.get_erase, if_neg hne, h]

/-- **Nothing is overwritten**: whatever is in the directory keeps its text until it is deleted. -/
theorem unchanged_of_run {dir : Dir} {n text : Text} (h : dir.get n = some text) (commands : List Command)
    (hc : ∀ c ∈ commands, n ∉ c.deletes) :
    (answering (step lib repr place) dir commands).1.get n = some text := by
  induction commands generalizing dir with
  | nil => exact h
  | cons c cs ih =>
    exact ih (get_step lib repr place h c (hc c List.mem_cons_self)) fun c' hc' => hc c' (List.mem_cons_of_mem _ hc')

theorem unchanged_of_run_sample :
    (answering (step sampleLibrary id "/creds".toList) (Obj.empty.set "hetzner-eu.yaml".toList sampleText)
        sampleCommands).1.get "hetzner-eu.yaml".toList = some sampleText :=
  unchanged_of_run sampleLibrary id "/creds".toList rfl sampleCommands (by decide)

end Runs

/-! ## What can be taken back -/

/-- The types of credentials are plain words. -/
theorem entry_word (kind : Kind) : ∀ e ∈ kind.table,
    e.1.all isNameChar = true ∧ (e.1.head?.any Char.isAlphanum) = true ∧ '.' ∉ e.1 := by
  cases kind <;> decide

/-- **Which files can be taken back**: the file that a request writes is deleted at a later one exactly when
the name of the account ends in neither a dot nor a newline. -/
theorem removable_iff (repr : Text → Text) {holds : Text → Bool} {req : AddRequest} {f : Filled} {s : Text}
    (h : vet repr holds req = .ok (f, s)) (dir : Dir) (hdir : s ++ ".yaml".toList ∈ dir.keys) :
    (credentialsDelete repr dir (s ++ ".yaml".toList)).2 = .ok (.deleted (s ++ ".yaml".toList)) ↔
      req.account.getLast? ≠ some '.' ∧ req.account.getLast? ≠ some '\n' := by
  obtain ⟨_, _, _, hname, rfl, _⟩ := vet_ok h
  obtain ⟨hre, hdots⟩ := safeName_iff.mp hname
  obtain ⟨hentry, hfirst, hdot⟩ := entry_word f.kind _ f.known
  have hfile : (credentialsDelete repr dir (f.entry ++ "-".toList ++ req.account ++ ".yaml".toList)).2 =
        .ok (.deleted (f.entry ++ "-".toList ++ req.account ++ ".yaml".toList)) ↔
      safeName (f.entry ++ "-".toList ++ req.account ++ ".yaml".toList) = true := by
    have hne : f.entry ++ "-".toList ++ req.account ≠ [] := by simp
    have hsuffix : suffix (f.entry ++ "-".toList ++ req.account ++ ".yaml".toList) ∈ credentialExts := by
      rw [suffix_yaml hne]
      decide
    unfold credentialsDelete
    rw [credentialFile_of_mem repr hsuffix (decide_eq_true hdir)]
    cases safeName (f.entry ++ "-".toList ++ req.account ++ ".yaml".toList) with
    | false => exact ⟨fun h => (by cases h), fun h => (by cases h)⟩
    | true => exact ⟨fun _ => rfl, fun _ => rfl⟩
  have hword : Jobs.Status.nameRe (f.entry ++ "-".toList ++ req.account ++ ".yaml".toList) = true ↔
      req.account.all isNameChar = true := by
    have hyaml : ".yaml".toList.all isNameChar = true := by decide
    have hhyphen : "-".toList.all isNameChar = true := by decide
    obtain ⟨c, es, hc⟩ := List.exists_cons_of_ne_nil f.entry_ne
    rw [hc] at hentry hfirst
    rw [List.all_cons, Bool.and_eq_true] at hentry
    have hlast : (es ++ "-".toList ++ req.account ++ ".yaml".toList).getLast? ≠ some '\n' := by
      have hyaml : ".yaml".toList.getLast? = some 'l' := by decide
      rw [List.getLast?_append, hyaml, Option.some_or]
      decide
    have hc' : c.isAlphanum = true := by simpa using hfirst
    rw [hc, List.cons_append, List.cons_append, List.cons_append, nameRe_cons, hc', Bool.true_and,
      decide_eq_false hlast, Bool.false_and, Bool.or_false, List.all_append, List.all_append, List.all_append,
      hentry.2, hyaml, hhyphen, Bool.and_true, Bool.true_and, Bool.true_and]
  have hmeet : "..".toList <:+: f.entry ++ "-".toList ++ req.account ++ ".yaml".toList ↔
      req.account.getLast? = some '.' := by
    have hnone {t : Text} (ht : '.' ∉ t) : ¬ "..".toList <:+: t := fun hin =>
      ht (hin.subset (by decide))
    have hfront : '.' ∉ f.entry ++ "-".toList := by
      rw [List.mem_append, not_or]
      exact ⟨hdot, by decide⟩
    have hyaml : ¬ "..".toList <:+: ".yaml".toList := by decide
    have haccount : req.account ≠ [] := by
      rintro heq
      rw [heq] at hre
      cases hre
    have hend : (f.entry ++ "-".toList).getLast? ≠ some '.' := fun hl => hfront (List.mem_of_getLast? hl)
    rw [dots_append, dots_append, List.getLast?_append_of_ne_nil _ haccount]
    constructor
    · rintro ((h | h | h) | h | h)
      · exact absurd h (hnone hfront)
      · exact absurd h hdots
      · exact absurd h.1 hend
      · exact absurd h hyaml
      · exact h.1
    · exact fun h => Or.inr (Or.inr ⟨h, by decide⟩)
  rw [hfile, safeName_iff, hword, hmeet, nameRe_all hre, and_comm]

theorem removable_iff_sample :
    (credentialsDelete id (Obj.empty.set ("hetzner-eu.".toList ++ ".yaml".toList) sampleText)
        ("hetzner-eu.".toList ++ ".yaml".toList)).2 = .ok (.deleted ("hetzner-eu.".toList ++ ".yaml".toList)) ↔
      "eu.".toList.getLast? ≠ some '.' ∧ "eu.".toList.getLast? ≠ some '\n' :=
  @removable_iff id (fun _ => false) ⟨"cloud".toList, "hetzner".toList, "eu.".toList, sampleFields, none⟩
    ⟨.cloud, "hetzner".toList, [row "HETZNER_TOKEN" true true, row "HETZNER_LOCATION" false false], sampleFields,
      by decide, by decide⟩ "hetzner-eu.".toList rfl _ (by decide)

end LabInABox.Credentials.Helper
