import LabInABox.Dns.Address
import LabInABox.Objects

/-!
# The hosts file

Model of `_hosts_line` and `_update_hosts_file` (`libs/services.py`): the file of addresses that is kept beside the
DNS zones, over any run of nodes that are registered and removed.

* The lines of the program are those that end in the name of the node and the mark; the other lines are kept.
* `resolves` is how such a file is read: the first line that has the name gives the address.
* A file that has no line left is written as an empty line.

Results:
* `entries_updateHostsFile`: what an update does to the lines that say something.
* `hosts_of_run`: after a run, a node has the line of its last update and no other, and the lines of others are as
  they were, in their order.
* `resolves_run`: the name of a node gives the address it was registered with last.
-/

namespace LabInABox.Dns

open Text

/-! ## The file -/

/-- `"  {} {}  # lab-in-a-box".format(vm_name, vm_name.split(".")[0])`. -/
def hostsSuffix (vmName : Text) : Text :=
  "  ".toList ++ (vmName ++ ' ' :: (shortName vmName ++ ' ' :: " # lab-in-a-box".toList))

/-- `_hosts_line(vm_name, myip)`. -/
def hostsLine (vmName myip : Text) : Text := myip ++ hostsSuffix vmName

/-- `path.read_text().splitlines() if path.exists() else []`. -/
def hostsLines (file : Option Text) : List Text := (file.map splitlines).getD []

/-- `_update_hosts_file(vm_name, myip)`. -/
def updateHostsFile (vmName : Text) (myip : Option Text) (file : Option Text) : Text :=
  let lines := (hostsLines file).filter fun l => decide (¬ hostsSuffix vmName <:+ l)
  ['\n'].intercalate (match myip with
    | some ip => if ip = [] then lines else lines ++ [hostsLine vmName ip]
    | none => lines) ++ ['\n']

/-- The updates of nodes, with an address or without, one after another. -/
def runHosts (us : List (Text × Option Text)) (file : Option Text) : Option Text :=
  us.foldl (fun file u => some (updateHostsFile u.1 u.2 file)) file

/-- The address that a line gives to a name. -/
def hostsAddress (name line : Text) : Option Text :=
  match fields (line.takeWhile (· ≠ '#')) with
  | ip :: names => if name ∈ names then some ip else none
  | [] => none

/-- What a file resolves a name to: the first line that has it counts. -/
def resolves (lines : List Text) (name : Text) : Option Text := lines.findSome? (hostsAddress name)

/-! ## Lines of the program -/

/-- A name or an address: a word without a mark of a comment. -/
structure IsPlain (t : Text) : Prop where
  field : IsField isSpace t
  noMark : '#' ∉ t

/-- An update of a node whose name and address are words. -/
structure IsUpdate (u : Text × Option Text) : Prop where
  name : IsPlain u.1
  address : ∀ ip, u.2 = some ip → IsPlain ip

instance (t : Text) : Decidable (IsPlain t) :=
  decidable_of_iff ((t ≠ [] ∧ ∀ c ∈ t, isSpace c = false) ∧ '#' ∉ t)
    ⟨fun h => ⟨h.1, h.2⟩, fun h => ⟨h.field, h.noMark⟩⟩

instance (u : Text × Option Text) : Decidable (IsUpdate u) :=
  decidable_of_iff (IsPlain u.1 ∧ ∀ ip ∈ u.2, IsPlain ip) ⟨fun h => ⟨h.1, h.2⟩, fun h => ⟨h.name, h.address⟩⟩

section Lines

variable {vmName vmName' myip name line : Text}

theorem not_mem_space {t : Text} (h : IsField isSpace t) : ' ' ∉ t := fun hm => absurd (h.2 _ hm) (by decide)

theorem mem_shortName {c : Char} (h : c ∈ shortName vmName) : c ∈ vmName := List.takeWhile_subset _ h

/-- Two texts that end in words behind a separator. -/
theorem append_cons_inj_right {s : Char} {a b x y : Text} (ha : s ∉ a) (hb : s ∉ b) (h : x ++ s :: a = y ++ s :: b) :
    x = y ∧ a = b := by
  rcases List.append_eq_append_iff.mp h with ⟨z, rfl, hz⟩ | ⟨z, rfl, hz⟩
  · cases z with
    | nil => exact ⟨(List.append_nil x).symm, (List.cons.inj hz).2⟩
    | cons d z =>
      obtain ⟨-, rfl⟩ := List.cons.inj hz
      exact absurd (List.mem_append_right _ List.mem_cons_self) ha
  · cases z with
    | nil => exact ⟨List.append_nil y, (List.cons.inj hz).2.symm⟩
    | cons d z =>
      obtain ⟨-, rfl⟩ := List.cons.inj hz
      exact absurd (List.mem_append_right _ List.mem_cons_self) hb

theorem append_cons_suffix_iff {s : Char} {a b x y : Text} (ha : s ∉ a) (hb : s ∉ b) :
    x ++ s :: a <:+ y ++ s :: b ↔ x <:+ y ∧ a = b := by
  constructor
  · rintro ⟨u, hu⟩
    obtain ⟨hxy, hab⟩ := append_cons_inj_right ha hb ((List.append_assoc ..).trans hu)
    exact ⟨⟨u, hxy⟩, hab⟩
  · rintro ⟨⟨u, rfl⟩, rfl⟩
    exact ⟨u, (List.append_assoc ..).symm⟩

theorem suffix_append_right_iff {x y : Text} (a : Text) : x ++ a <:+ y ++ a ↔ x <:+ y := by
  constructor
  · rintro ⟨u, hu⟩
    exact ⟨u, List.append_cancel_right ((List.append_assoc ..).trans hu)⟩
  · rintro ⟨u, rfl⟩
    exact ⟨u, (List.append_assoc ..).symm⟩

/-- **A line of the program** is that of one node. -/
theorem hostsSuffix_suffix_iff (hv : IsPlain vmName) (hv' : IsPlain vmName') (myip : Text) :
    hostsSuffix vmName <:+ hostsLine vmName' myip ↔ vmName = vmName' := by
  have hshort : ∀ {v : Text}, IsPlain v → ' ' ∉ shortName v := fun h hm => not_mem_space h.field (mem_shortName hm)
  have hsuffix : ∀ v : Text, hostsSuffix v =
      (([' '] ++ ' ' :: v) ++ ' ' :: shortName v) ++ ' ' :: " # lab-in-a-box".toList := by
    intro v
    simp [hostsSuffix]
  rw [hostsLine, hsuffix, hsuffix, ← List.append_assoc, suffix_append_right_iff, ← List.append_assoc,
    append_cons_suffix_iff (hshort hv) (hshort hv'), ← List.append_assoc,
    append_cons_suffix_iff (not_mem_space hv.field) (not_mem_space hv'.field)]
  constructor
  · rintro ⟨⟨-, h⟩, -⟩
    exact h
  · rintro rfl
    exact ⟨⟨List.suffix_append _ _, rfl⟩, rfl⟩

/-- A line does not end as that of two nodes. -/
theorem name_eq_of_suffix {l : Text} (hv : IsPlain vmName) (hv' : IsPlain vmName') (h : hostsSuffix vmName <:+ l)
    (h' : hostsSuffix vmName' <:+ l) : vmName = vmName' := by
  rcases List.suffix_or_suffix_of_suffix h h' with h | h
  · exact (hostsSuffix_suffix_iff hv hv' []).mp h
  · exact ((hostsSuffix_suffix_iff hv' hv []).mp h).symm

theorem oneLine_of_isPlain (h : IsPlain name) : OneLine name := OneLine.of_noSpace h.field.2

theorem oneLine_hostsLine (hv : IsPlain vmName) (hi : IsPlain myip) : OneLine (hostsLine vmName myip) := by
  have hshort : OneLine (shortName vmName) := fun c hc => oneLine_of_isPlain hv c (mem_shortName hc)
  have htag : OneLine " # lab-in-a-box".toList := by decide
  have hblank : OneLine "  ".toList := by decide
  intro c hc
  simp only [hostsLine, hostsSuffix, List.mem_append, List.mem_cons] at hc
  rcases hc with hc | hc | hc | rfl | hc | rfl | hc
  · exact oneLine_of_isPlain hi c hc
  · exact hblank c hc
  · exact oneLine_of_isPlain hv c hc
  · decide
  · exact hshort c hc
  · decide
  · exact htag c hc

theorem hostsLine_ne_nil : hostsLine vmName myip ≠ [] := by
  simp [hostsLine, hostsSuffix]

end Lines

/-! ## Runs -/

section Runs

variable {us : List (Text × Option Text)} {u : Text × Option Text} {file : Option Text} {vmName : Text}

/-- The lines that say something. -/
def hostsEntries (file : Option Text) : List Text := (hostsLines file).filter fun l => decide (l ≠ [])

/-- What an update does to lines: those of the node go, and one with its address comes. -/
def putHosts (ls : List Text) (u : Text × Option Text) : List Text :=
  ls.filter (fun l => decide (¬ hostsSuffix u.1 <:+ l)) ++ (u.2.map (hostsLine u.1)).toList

/-- **An update**, on the lines that say something. -/
theorem entries_updateHostsFile (hu : IsUpdate u) (file : Option Text) :
    hostsEntries (some (updateHostsFile u.1 u.2 file)) = putHosts (hostsEntries file) u := by
  set kept := (hostsLines file).filter fun l => decide (¬ hostsSuffix u.1 <:+ l) with hkept
  have hlines : updateHostsFile u.1 u.2 file =
      ['\n'].intercalate (kept ++ (u.2.map (hostsLine u.1)).toList) ++ ['\n'] := by
    unfold updateHostsFile
    obtain ⟨v, r⟩ := u
    cases r with
    | none => exact congrArg (['\n'].intercalate · ++ ['\n']) (List.append_nil _).symm
    | some ip => exact congrArg (['\n'].intercalate · ++ ['\n']) (if_neg (hu.address ip rfl).field.1)
  have hone : ∀ l ∈ kept ++ (u.2.map (hostsLine u.1)).toList, OneLine l := by
    intro l hl
    rcases List.mem_append.mp hl with hl | hl
    · have hl' : l ∈ hostsLines file := (List.mem_filter.mp hl).1
      cases file with
      | none => cases hl'
      | some text => exact oneLine_of_mem_splitlines l hl'
    · obtain ⟨ip, hip, rfl⟩ := Option.map_eq_some_iff.mp (Option.mem_toList.mp hl)
      exact oneLine_hostsLine hu.name (hu.address ip hip)
  have hput : putHosts (hostsEntries file) u =
      (kept ++ (u.2.map (hostsLine u.1)).toList).filter fun l => decide (l ≠ []) := by
    rw [List.filter_append, putHosts, hostsEntries, hkept, List.filter_filter, List.filter_filter]
    congr 1
    · exact List.filter_congr fun l _ => Bool.and_comm ..
    · cases u.2 with
      | none => rfl
      | some ip =>simp [hostsLine_ne_nil]
  rw [hput, hlines, hostsEntries]
  generalize kept ++ (u.2.map (hostsLine u.1)).toList = ls at hone
  by_cases hnil : ls = []
  · subst hnil
    rfl
  · rw [intercalate_append_newline hnil]
    change (splitlines (unlines ls)).filter _ = _
    rw [splitlines_unlines hone]

theorem entries_runHosts (hus : ∀ u ∈ us, IsUpdate u) (file : Option Text) :
    hostsEntries (runHosts us file) = us.foldl putHosts (hostsEntries file) := by
  induction us generalizing file with
  | nil => rfl
  | cons u us ih =>
    have hrest := ih (fun v hv => hus v (List.mem_cons_of_mem _ hv)) (some (updateHostsFile u.1 u.2 file))
    rw [entries_updateHostsFile (hus u List.mem_cons_self)] at hrest
    exact hrest

/-- The lines of a node. -/
def ownLines (vmName : Text) (ls : List Text) : List Text := ls.filter fun l => decide (hostsSuffix vmName <:+ l)

/-- The lines of none of the nodes. -/
def otherLines (names : List Text) (ls : List Text) : List Text :=
  ls.filter fun l => decide (∀ n ∈ names, ¬ hostsSuffix n <:+ l)

theorem ownLines_putHosts (hu : IsUpdate u) (hv : IsPlain vmName) (ls : List Text) :
    ownLines vmName (putHosts ls u) =
      if vmName = u.1 then (u.2.map (hostsLine u.1)).toList else ownLines vmName ls := by
  have hline : ownLines vmName (u.2.map (hostsLine u.1)).toList =
      if vmName = u.1 then (u.2.map (hostsLine u.1)).toList else [] := by
    cases u.2 with
    | none => exact (ite_self _).symm
    | some ip =>
      have hiff := hostsSuffix_suffix_iff hv hu.name ip
      split
      · rename_i heq
        exact List.filter_cons_of_pos (decide_eq_true (hiff.mpr heq))
      · rename_i hne
        exact List.filter_cons_of_neg fun hcon => hne (hiff.mp (of_decide_eq_true hcon))
  rw [putHosts, ownLines, List.filter_append, List.filter_filter]
  change _ ++ ownLines vmName _ = _
  rw [hline]
  split
  · rename_i heq
    have hnone : (ls.filter fun l => decide (hostsSuffix vmName <:+ l) && decide (¬ hostsSuffix u.1 <:+ l)) = [] := by
      rw [heq]
      exact List.filter_eq_nil_iff.mpr fun l _ => by simp
    rw [hnone, List.nil_append]
  · rename_i hne
    rw [List.append_nil]
    refine List.filter_congr fun l _ => ?_
    by_cases hown : hostsSuffix vmName <:+ l
    · have hnot : ¬ hostsSuffix u.1 <:+ l := fun hcon =>
        hne (name_eq_of_suffix hv hu.name hown hcon)
      simp [hown, hnot]
    · simp [hown]

theorem otherLines_putHosts {names : List Text} (hu : IsUpdate u) (hmem : u.1 ∈ names) (ls : List Text) :
    otherLines names (putHosts ls u) = otherLines names ls := by
  have hline : otherLines names (u.2.map (hostsLine u.1)).toList = [] := by
    refine List.filter_eq_nil_iff.mpr fun l hl hcon => ?_
    obtain ⟨ip, -, rfl⟩ := Option.map_eq_some_iff.mp (Option.mem_toList.mp hl)
    exact of_decide_eq_true hcon _ hmem ((hostsSuffix_suffix_iff hu.name hu.name ip).mpr rfl)
  rw [putHosts, otherLines, List.filter_append, List.filter_filter]
  change _ ++ otherLines names _ = _
  rw [hline, List.append_nil]
  refine List.filter_congr fun l _ => ?_
  by_cases hnone : ∀ n ∈ names, ¬ hostsSuffix n <:+ l
  · simp [hnone _ hmem]
  · simp [hnone]

theorem mem_of_dictGet {α β : Type*} [BEq α] [LawfulBEq α] {es : List (α × β)} {k : α} {v : β}
    (h : dictGet es k = some v) : (k, v) ∈ es := by
  obtain ⟨l₁, l₂, hl, -⟩ := List.lookup_eq_some_iff.mp h
  exact List.mem_reverse.mp (hl ▸ List.mem_append_right _ List.mem_cons_self)

/-- **After a run**, a node has the line of its last update, and no other. -/
theorem ownLines_run {r : Option Text} (hus : ∀ u ∈ us, IsUpdate u) (hr : dictGet us vmName = some r)
    (ls : List Text) : ownLines vmName (us.foldl putHosts ls) = (r.map (hostsLine vmName)).toList := by
  induction us using List.reverseRecOn with
  | nil => cases hr
  | append_singleton us u ih =>
    have hv : IsPlain vmName := (hus _ (mem_of_dictGet hr)).name
    rw [List.foldl_append, List.foldl_cons, List.foldl_nil,
      ownLines_putHosts (hus u (List.mem_append_right _ List.mem_cons_self)) hv]
    rw [dictGet_append] at hr
    split
    · rename_i heq
      have hone : dictGet [u] vmName = some u.2 := by
        rw [heq]
        exact List.lookup_cons_self
      rw [hone] at hr
      obtain rfl := Option.some.inj hr
      rw [heq]
    · rename_i hne
      have hone : dictGet [u] vmName = none := dictGet_eq_none fun hcon => hne (List.mem_singleton.mp hcon)
      rw [hone] at hr
      exact ih (fun w hw => hus w (List.mem_append_left _ hw)) hr

/-- The lines of others are as they were. -/
theorem otherLines_run {names : List Text} (hus : ∀ u ∈ us, IsUpdate u) (hmem : ∀ u ∈ us, u.1 ∈ names)
    (ls : List Text) : otherLines names (us.foldl putHosts ls) = otherLines names ls := by
  induction us generalizing ls with
  | nil => rfl
  | cons u us ih =>
    rw [List.foldl_cons, ih (fun v hv => hus v (List.mem_cons_of_mem _ hv))
      (fun v hv => hmem v (List.mem_cons_of_mem _ hv)),
      otherLines_putHosts (hus u List.mem_cons_self) (hmem u List.mem_cons_self)]

/-- **What a run leaves**: each node has the line of its last update, and the lines of others are as they were. -/
theorem hosts_of_run (hus : ∀ u ∈ us, IsUpdate u) (file : Option Text) :
    (∀ vmName r, dictGet us vmName = some r →
      ownLines vmName (hostsEntries (runHosts us file)) = (r.map (hostsLine vmName)).toList) ∧
    otherLines (us.map Prod.fst) (hostsEntries (runHosts us file)) =
      otherLines (us.map Prod.fst) (hostsEntries file) := by
  rw [entries_runHosts hus]
  exact ⟨fun _ _ hr => ownLines_run hus hr _, otherLines_run hus (fun _ hu => List.mem_map_of_mem hu) _⟩

/-- Two nodes are registered, the first again at another address, and the second is removed. -/
def sampleUpdates : List (Text × Option Text) :=
  [("n1.lab".toList, some "10.0.0.1".toList), ("n2.lab".toList, some "10.0.0.2".toList),
    ("n1.lab".toList, some "10.0.0.3".toList), ("n2.lab".toList, none)]

/-- A file with a line of its own. -/
def sampleHosts : Option Text := some "127.0.0.1 localhost\n".toList

theorem hosts_of_run_sample :
    (∀ vmName r, dictGet sampleUpdates vmName = some r →
      ownLines vmName (hostsEntries (runHosts sampleUpdates sampleHosts)) = (r.map (hostsLine vmName)).toList) ∧
    otherLines (sampleUpdates.map Prod.fst) (hostsEntries (runHosts sampleUpdates sampleHosts)) =
      otherLines (sampleUpdates.map Prod.fst) (hostsEntries sampleHosts) :=
  hosts_of_run (by decide) sampleHosts

/-! ## What the file resolves -/

variable {name myip : Text}

/-- What is read of a line of the program. -/
theorem hostsAddress_hostsLine (hv : IsPlain vmName) (hi : IsPlain myip) :
    hostsAddress name (hostsLine vmName myip) =
      if name ∈ vmName :: fields (shortName vmName) then some myip else none := by
  have hbare : (hostsLine vmName myip).takeWhile (· ≠ '#') =
      myip ++ ' ' :: ' ' :: (vmName ++ ' ' :: (shortName vmName ++ "  ".toList)) := by
    have hmark : ∀ {t : Text}, '#' ∉ t → ∀ c ∈ t, decide (c ≠ '#') = true :=
      fun h c hc => decide_eq_true fun e => h (e ▸ hc)
    have hshort : '#' ∉ shortName vmName := fun hm => hv.noMark (mem_shortName hm)
    rw [hostsLine, hostsSuffix, List.takeWhile_append_of_pos (hmark hi.noMark)]
    change myip ++ ' ' :: ' ' :: (vmName ++ ' ' :: (shortName vmName ++ _)).takeWhile _ = _
    rw [List.takeWhile_append_of_pos (hmark hv.noMark)]
    change myip ++ ' ' :: ' ' :: (vmName ++ ' ' :: (shortName vmName ++ _).takeWhile _) = _
    rw [List.takeWhile_append_of_pos (hmark hshort)]
    rfl
  have hblank : ∀ c ∈ "  ".toList, isSpace c = true := by decide
  have hfields : fields ((hostsLine vmName myip).takeWhile (· ≠ '#')) =
      myip :: vmName :: fields (shortName vmName) := by
    rw [hbare, fields, fieldsBy_append_sep hi.field isSpace_space, fieldsBy_cons_sep isSpace_space,
      fieldsBy_append_sep hv.field isSpace_space, fieldsBy_append_blank hblank]
  rw [hostsAddress, hfields]

/-- A name with a dot is not one that stands for the front of another. -/
theorem not_mem_fields_shortName (hv : IsPlain vmName) (hdot : '.' ∈ name) : name ∉ fields (shortName vmName) := by
  intro hmem
  by_cases hne : shortName vmName = []
  · rw [hne] at hmem
    cases hmem
  · have hfield : IsField isSpace (shortName vmName) := ⟨hne, fun c hc => hv.field.2 c (mem_shortName hc)⟩
    rw [fields, fieldsBy_of_isField hfield] at hmem
    obtain rfl := List.mem_singleton.mp hmem
    exact absurd (List.mem_takeWhile_imp hdot) (by decide)

theorem findSome?_of_forall {α β : Type*} {f : α → Option β} {l : List α} {b : β} (h : ∃ a ∈ l, f a = some b)
    (hall : ∀ a ∈ l, f a = none ∨ f a = some b) : l.findSome? f = some b := by
  obtain ⟨a, ha, hb⟩ := h
  cases hf : l.findSome? f with
  | none => exact absurd (List.findSome?_eq_none_iff.mp hf a ha) (by rw [hb]; exact Option.some_ne_none b)
  | some c =>
    obtain ⟨a', ha', hc⟩ := List.exists_of_findSome?_eq_some hf
    rcases hall a' ha' with hnone | hsome
    · rw [hnone] at hc
      cases hc
    · rw [← hc, hsome]

/-- **The name of a node** gives the address it was registered with last, if no other line of the file had it. -/
theorem resolves_run (hus : ∀ u ∈ us, IsUpdate u) (hr : dictGet us vmName = some (some myip)) (hdot : '.' ∈ vmName)
    (hothers : ∀ l ∈ otherLines (us.map Prod.fst) (hostsEntries file), hostsAddress vmName l = none) :
    resolves (hostsLines (runHosts us file)) vmName = some myip := by
  have hentries := entries_runHosts hus file
  have hother := otherLines_run hus (fun _ hu => List.mem_map_of_mem (f := Prod.fst) hu) (hostsEntries file)
  rw [← hentries] at hother
  have hplain : ∀ {n}, n ∈ us.map Prod.fst → IsPlain n := by
    intro n hn
    obtain ⟨u, hu, rfl⟩ := List.mem_map.mp hn
    exact (hus u hu).name
  have hline : hostsLine vmName myip ∈ hostsLines (runHosts us file) := by
    have hmem : hostsLine vmName myip ∈ ownLines vmName (hostsEntries (runHosts us file)) := by
      rw [hentries, ownLines_run hus hr]
      exact List.mem_singleton_self _
    exact (List.mem_filter.mp (List.mem_filter.mp hmem).1).1
  have hu := hus _ (mem_of_dictGet hr)
  have hself : hostsAddress vmName (hostsLine vmName myip) = some myip := by
    rw [hostsAddress_hostsLine hu.name (hu.address myip rfl), if_pos List.mem_cons_self]
  refine findSome?_of_forall ⟨_, hline, hself⟩ fun l hl => ?_
  by_cases hnil : l = []
  · exact hnil ▸ Or.inl rfl
  have hmem : l ∈ hostsEntries (runHosts us file) := List.mem_filter.mpr ⟨hl, decide_eq_true hnil⟩
  by_cases hown : ∃ n ∈ us.map Prod.fst, hostsSuffix n <:+ l
  · obtain ⟨n, hn, hsuffix⟩ := hown
    have hmem' : l ∈ ownLines n (hostsEntries (runHosts us file)) :=
      List.mem_filter.mpr ⟨hmem, decide_eq_true hsuffix⟩
    obtain ⟨r, hr'⟩ : ∃ r, dictGet us n = some r := by
      refine exists_lookup_of_mem ?_
      rw [List.map_reverse, List.mem_reverse]
      exact hn
    rw [hentries, ownLines_run hus hr', Option.mem_toList] at hmem'
    obtain ⟨ip, hip, rfl⟩ := Option.map_eq_some_iff.mp hmem'
    by_cases heq : n = vmName
    · subst heq
      obtain rfl := Option.some.inj (hip.symm.trans (Option.some.inj (hr'.symm.trans hr)))
      exact Or.inr hself
    · have hip' : IsPlain ip := (hus _ (mem_of_dictGet hr')).address ip hip
      rw [hostsAddress_hostsLine (hplain hn) hip']
      exact Or.inl (if_neg fun hcon => (List.mem_cons.mp hcon).elim (fun e => heq e.symm)
        (not_mem_fields_shortName (hplain hn) hdot))
  · have hnot : ∀ n ∈ us.map Prod.fst, ¬ hostsSuffix n <:+ l := fun n hn hcon => hown ⟨n, hn, hcon⟩
    refine Or.inl (hothers l ?_)
    rw [← hother]
    exact List.mem_filter.mpr ⟨hmem, decide_eq_true hnot⟩

theorem resolves_run_sample :
    resolves (hostsLines (runHosts sampleUpdates sampleHosts)) "n1.lab".toList = some "10.0.0.3".toList :=
  resolves_run (by decide) (by decide) (by decide) (by decide)

end Runs

end LabInABox.Dns
