import LabInABox.Credentials.Raises

/-!
# Discovery and loading

Whether what is listed (`list_cloud_accounts`, `list_service_credentials`) is what is loaded by its name
(`try_load_cloud_account`, `try_load_service_credential`, all in `libs/primary.py`), over the model of
`Parsed`.

* Listing keeps the first file of a name that has a marker, by the first of its markers. Loading takes the
  first file of the name that exists, by the last of its markers.
* A passphrase is the right one where it opens what is encrypted in the file that is loaded: `Opened`.

Results:
* `cloudAccountPath_eq`: loading takes the first of the files that listing looks at, by name.
* `loadedFrom_iff`: a file that is listed is the one that is loaded exactly when it is the first of its
  name and its first and last markers are the same.
* `discovery_agrees_iff`: so over any directories.
-/

namespace LabInABox.Credentials.Parsed

open Text

variable (lib : Library) (kind : Kind) (files : Directories) (dirs : List Text)

/-! ## Agreement -/

/-- What loading parses a file to, by the suffix of its path. -/
def Candidate.reloaded (c : Candidate) : Option Data :=
  match c.content.map (parse lib (lower (suffix (c.name ++ c.ext)))) with
  | some (.ok (.mapping data)) => some data
  | _ => none

/-- The path of a file. -/
def Candidate.path (c : Candidate) : Text := c.dir ++ "/".toList ++ c.name ++ c.ext

/-- A session opens what is encrypted in a file. -/
def Opened (s : Session) (cache : Cache) (c : Candidate) (data : Data) : Prop :=
  ∃ d cache', decryptData lib kind s cache c.path c.name (withoutMarkers kind data) = (.value d, cache')

/-- A file that is listed is loaded by its name: from that file and, given the right passphrase, with the
marker it is listed with. -/
structure LoadedFrom (c : Candidate) : Prop where
  file : cloudAccountPath files dirs c.name = some (c.dir, c.ext)
  loads : ∀ s cache, (∀ data, c.reloaded lib = some data → Opened lib kind s cache c data) →
    ∃ d cache', tryLoad lib kind files dirs s cache c.name = (.value d, cache') ∧
      d.get (.text kind.key) = some (.text (c.entry lib kind))

/-- **Discovery and loading agree**: whatever is listed is loaded from the file it was found in, with the
marker it was found with. -/
def Agree : Prop :=
  ∀ found, listFound lib kind files dirs = .ok found → ∀ f ∈ found,
    ∃ c ∈ candidates files dirs, f = c.found lib kind ∧ LoadedFrom lib kind files dirs c

/-- The file is the first of its name. -/
def FirstOfName (c : Candidate) : Prop :=
  (candidates files dirs).find? (fun c' => decide (c'.name = c.name)) = some c

/-- The last marker of a file is its first one, and every key has `lower`; or no passphrase opens it. -/
def SameMarker (c : Candidate) : Prop :=
  ∀ data, c.reloaded lib = some data → (∃ s cache, Opened lib kind s cache c data) →
    (∀ k ∈ data.keys, k.Lowers) ∧ lastText lib kind data.entries = c.entry lib kind

/-! ## The file that is loaded -/

section Path

variable {files dirs}

theorem eq_take_of_suffix {ext file : Text} (h : ext <:+ file) : file.take (file.length - ext.length) ++ ext = file := by
  obtain ⟨t, rfl⟩ := h
  rw [List.length_append, Nat.add_sub_cancel, List.take_left]

/-- A file of a directory is found by its name. -/
theorem mem_glob {d ext : Text} {c : Candidate} :
    c ∈ glob files d ext ↔ c.dir = d ∧ c.ext = ext ∧ contentOf files d (c.name ++ ext) = some c.content := by
  unfold glob contentOf
  cases hd : files d with
  | none => exact ⟨fun h => absurd h List.not_mem_nil, fun h => by cases h.2.2⟩
  | some es =>
    dsimp only
    rw [Option.bind_some, List.mem_map]
    constructor
    · rintro ⟨e, he, rfl⟩
      obtain ⟨hmem, hsuffix⟩ := List.mem_filter.mp ((List.mem_insertionSort _).mp he)
      refine ⟨rfl, rfl, ?_⟩
      rw [eq_take_of_suffix (List.isSuffixOf_iff_suffix.mp hsuffix)]
      exact Obj.mem_entries_iff.mp hmem
    · rintro ⟨rfl, rfl, hget⟩
      refine ⟨(c.name ++ c.ext, c.content), (List.mem_insertionSort _).mpr (List.mem_filter.mpr
        ⟨Obj.mem_entries_iff.mpr hget, ?_⟩), ?_⟩
      · exact List.isSuffixOf_iff_suffix.mpr (List.suffix_append _ _)
      · rw [List.length_append, Nat.add_sub_cancel, List.take_left]

theorem find?_glob (d ext n : Text) : (glob files d ext).find? (fun c => decide (c.name = n)) =
    (contentOf files d (n ++ ext)).map fun content => ⟨d, ext, n, content⟩ := by
  cases hc : contentOf files d (n ++ ext) with
  | none =>
    refine List.find?_eq_none.mpr fun c hmem hn => ?_
    obtain ⟨_, _, hget⟩ := mem_glob.mp hmem
    rw [of_decide_eq_true hn, hc] at hget
    cases hget
  | some content =>
    cases hf : (glob files d ext).find? (fun c => decide (c.name = n)) with
    | none =>
      have hmem : (⟨d, ext, n, content⟩ : Candidate) ∈ glob files d ext := mem_glob.mpr ⟨rfl, rfl, hc⟩
      exact absurd (decide_eq_true rfl) (List.find?_eq_none.mp hf _ hmem)
    | some c =>
      obtain ⟨hdir, hext, hget⟩ := mem_glob.mp (List.mem_of_find?_eq_some hf)
      have hn := List.find?_some hf
      simp only [decide_eq_true_eq] at hn
      obtain ⟨dir, ext', name, content'⟩ := c
      dsimp only at hdir hext hget hn
      subst hdir hext hn
      rw [hc] at hget
      rw [Option.some.inj hget]
      rfl

/-- The first that has a file, and the file. -/
theorem find?_eq_map_findSome? {α β : Type} {h : α → Option β} {p : β → α} (l : List α)
    (hp : ∀ a ∈ l, ∀ b, h a = some b → p b = a) :
    l.find? (fun a => (h a).isSome) = (l.findSome? h).map p := by
  induction l with
  | nil => rfl
  | cons a l ih =>
    rw [List.find?_cons, List.findSome?_cons]
    cases ha : h a with
    | none => exact ih fun a' ha' => hp a' (List.mem_cons_of_mem _ ha')
    | some b => exact congrArg some (hp a List.mem_cons_self b ha).symm

/-- **Loading takes** the first of the files that listing looks at, by name. -/
theorem cloudAccountPath_eq (n : Text) : cloudAccountPath files dirs n =
    ((candidates files dirs).find? fun c => decide (c.name = n)).map fun c => (c.dir, c.ext) := by
  have hcandidates : candidates files dirs =
      (dirs.flatMap fun d => cloudAccountExts.map fun ext => (d, ext)).flatMap
        fun p => glob files p.1 p.2 := by
    unfold candidates
    rw [List.flatMap_assoc]
    simp only [List.flatMap_map]
  rw [hcandidates, List.find?_flatMap]
  simp only [find?_glob]
  unfold cloudAccountPath
  rw [← find?_eq_map_findSome?]
  · simp only [Option.isSome_map]
  · intro p _ c hc
    obtain ⟨content, _, rfl⟩ := Option.map_eq_some_iff.mp hc
    rfl

theorem mem_candidates {c : Candidate} (h : c ∈ candidates files dirs) :
    contentOf files c.dir (c.name ++ c.ext) = some c.content ∧ c.ext ∈ cloudAccountExts := by
  unfold candidates at h
  obtain ⟨d, _, h⟩ := List.mem_flatMap.mp h
  obtain ⟨ext, hext, h⟩ := List.mem_flatMap.mp h
  obtain ⟨rfl, rfl, hget⟩ := mem_glob.mp h
  exact ⟨hget, hext⟩

/-- A file is where its name leads to exactly when it is the first of its name. -/
theorem file_iff {c : Candidate} (hc : c ∈ candidates files dirs) :
    cloudAccountPath files dirs c.name = some (c.dir, c.ext) ↔ FirstOfName files dirs c := by
  rw [cloudAccountPath_eq, Option.map_eq_some_iff]
  constructor
  · rintro ⟨c', hf, hpath⟩
    have hn := List.find?_some hf
    simp only [decide_eq_true_eq] at hn
    have hget := (mem_candidates (List.mem_of_find?_eq_some hf)).1
    obtain ⟨hdir, hext⟩ := Prod.mk.inj hpath
    rw [hdir, hext, hn, (mem_candidates hc).1] at hget
    have hcc : c' = c := by
      obtain ⟨dir, ext, name, content⟩ := c
      obtain ⟨dir', ext', name', content'⟩ := c'
      dsimp only at hdir hext hn hget
      rw [hdir, hext, hn, Option.some.inj hget]
    unfold FirstOfName
    rw [hf, hcc]
  · intro hf
    exact ⟨c, hf, rfl⟩

end Path

/-! ## What it is parsed to -/

section Suffix

theorem suffix_append {name body : Text} (hdot : '.' ∉ body) (hbody : body ≠ []) :
    suffix (name ++ '.' :: body) = if name = [] then [] else '.' :: body := by
  have hrun : (name ++ '.' :: body).rtakeWhile (· ≠ '.') = body := by
    have hall : ∀ c ∈ body.reverse, decide (c ≠ '.') = true := by
      intro c hc
      refine decide_eq_true fun h => hdot ?_
      rw [← h]
      exact List.mem_reverse.mp hc
    rw [List.rtakeWhile, List.reverse_append, List.reverse_cons, List.append_assoc,
      List.takeWhile_append_of_pos hall, List.singleton_append, List.takeWhile_cons_of_neg (by simp),
      List.append_nil, List.reverse_reverse]
  unfold suffix
  rw [hrun]
  by_cases hname : name = []
  · rw [hname, if_pos rfl, if_neg]
    rintro ⟨_, hlt⟩
    exact absurd hlt (Nat.lt_irrefl _)
  · rw [if_neg hname, if_pos]
    refine ⟨hbody, ?_⟩
    have hlen := List.length_pos_of_ne_nil hname
    rw [List.length_append, List.length_cons]
    omega

/-- The suffix of a path is the one the file was looked for with, unless its name is empty. -/
theorem suffix_of_ext {name ext : Text} (h : ext ∈ cloudAccountExts) :
    lower (suffix (name ++ ext)) = if name = [] then [] else ext := by
  have hexts : ∀ ext ∈ cloudAccountExts, ∃ body, ext = '.' :: body ∧ '.' ∉ body ∧ body ≠ [] ∧ lower ext = ext := by
    intro ext h
    unfold cloudAccountExts at h
    simp only [List.map_cons, List.map_nil, List.mem_cons, List.not_mem_nil, or_false] at h
    rcases h with rfl | rfl | rfl | rfl
    · exact ⟨"yaml".toList, by decide, by decide, by decide, by decide⟩
    · exact ⟨"yml".toList, by decide, by decide, by decide, by decide⟩
    · exact ⟨"json".toList, by decide, by decide, by decide, by decide⟩
    · exact ⟨"cfg".toList, by decide, by decide, by decide, by decide⟩
  obtain ⟨body, hext, hdot, hbody, hlower⟩ := hexts ext h
  rw [hext] at hlower ⊢
  rw [suffix_append hdot hbody]
  split
  · rfl
  · exact hlower

variable {lib kind files dirs} {c : Candidate}

/-- Loading parses a file as listing did, unless its name is empty. -/
theorem reloaded_eq_data (h : c.ext ∈ cloudAccountExts) (hname : c.name ≠ []) :
    c.reloaded lib = c.data lib := by
  have hext : lower (suffix (c.name ++ c.ext)) = c.ext := (suffix_of_ext h).trans (if_neg hname)
  exact congrArg (fun ext => match c.content.map (parse lib ext) with
    | some (.ok (.mapping data)) => some data
    | _ => none) hext

/-- A file that has a marker is parsed to a mapping again. -/
theorem exists_reloaded (h : c.ext ∈ cloudAccountExts) (he : c.entry lib kind ≠ []) :
    ∃ text data, c.content = some text ∧
      parse lib (lower (suffix (c.name ++ c.ext))) text = .ok (.mapping data) := by
  unfold Candidate.entry Candidate.data at he
  cases ht : c.content with
  | none =>
    rw [ht] at he
    exact absurd rfl he
  | some text =>
    by_cases hname : c.name = []
    · rw [suffix_of_ext h, if_pos hname]
      exact ⟨text, _, rfl, rfl⟩
    · rw [suffix_of_ext h, if_neg hname]
      rw [ht, Option.map_some] at he
      split at he
      · rename_i data hdata
        exact ⟨text, data, rfl, Option.some.inj hdata⟩
      · exact absurd rfl he

/-- **A file that is listed** is the one that is loaded, with its marker, exactly when it is the first of
its name and its last marker is its first. -/
theorem loadedFrom_iff (hc : c ∈ candidates files dirs) (he : c.entry lib kind ≠ []) :
    LoadedFrom lib kind files dirs c ↔ FirstOfName files dirs c ∧ SameMarker lib kind c := by
  obtain ⟨hget, hext⟩ := mem_candidates hc
  obtain ⟨text, data, ht, hparse⟩ := exists_reloaded hext he
  have hdata : c.reloaded lib = some data := by
    unfold Candidate.reloaded
    rw [ht, Option.map_some, hparse]
  rw [ht] at hget
  have hload (s : Session) (cache : Cache) (hfile : cloudAccountPath files dirs c.name = some (c.dir, c.ext)) :
      tryLoad lib kind files dirs s cache c.name = loadData lib kind s cache c.path c.name data :=
    tryLoad_of_mapping hfile hget hparse
  constructor
  · rintro ⟨hfile, hloads⟩
    refine ⟨(file_iff hc).mp hfile, fun data' hdata' ⟨s, cache, hopen⟩ => ?_⟩
    obtain rfl := Option.some.inj (hdata.symm.trans hdata')
    obtain ⟨d, cache', hd, hmark⟩ := hloads s cache fun d' hd' =>
      Option.some.inj (hdata.symm.trans hd') ▸ hopen
    rw [hload s cache hfile] at hd
    unfold loadData at hd
    by_cases hl : ∀ k ∈ data.keys, k.Lowers
    · refine ⟨hl, ?_⟩
      rw [popMarkers_entries hl] at hd
      dsimp only at hd
      split at hd
      · cases hd
      · obtain ⟨d', cache'', hopen⟩ := hopen
        unfold withoutMarkers at hopen
        rw [hopen] at hd
        obtain ⟨hd, _⟩ := Prod.mk.inj hd
        obtain rfl := Outcome.value.inj hd
        rw [Obj.get_set, if_pos rfl] at hmark
        exact Item.text.inj (Option.some.inj hmark)
    · have hn : ¬ ∀ e ∈ data.entries, e.1.Lowers := fun h => hl fun k hk => by
        obtain ⟨e, he, rfl⟩ := List.mem_map.mp hk
        exact h e he
      rw [popMarkers_of_not_lowers hn] at hd
      cases hd
  · rintro ⟨hfirst, hsame⟩
    have hfile := (file_iff hc).mpr hfirst
    refine ⟨hfile, fun s cache hopened => ?_⟩
    have hopen := hopened data hdata
    obtain ⟨hl, hlast⟩ := hsame data hdata ⟨s, cache, hopen⟩
    obtain ⟨d, cache', hd⟩ := hopen
    rw [hload s cache hfile]
    unfold loadData
    rw [popMarkers_entries hl]
    dsimp only
    unfold withoutMarkers at hd
    rw [if_neg (hlast ▸ he), hd]
    exact ⟨_, _, rfl, by rw [Obj.get_set, if_pos rfl, hlast]⟩

end Suffix

/-! ## Whatever is listed -/

section Listed

variable {lib kind files dirs}

theorem mem_of_looksAt {c : Candidate} {seen : List Text} (h : LooksAt lib kind seen (candidates files dirs) c) :
    c ∈ candidates files dirs := by
  obtain ⟨_, pre, post, heq, _⟩ := h
  rw [heq]
  exact List.mem_append_right _ List.mem_cons_self

/-- Two files that are listed as one are one. -/
theorem eq_of_found_eq {c c' : Candidate} (hc : c ∈ candidates files dirs) (hc' : c' ∈ candidates files dirs)
    (h : c.found lib kind = c'.found lib kind) : c = c' := by
  obtain ⟨hname, _, hdir, hext⟩ := Found.mk.inj h
  have hget := (mem_candidates hc).1
  rw [hname, hdir, hext, (mem_candidates hc').1] at hget
  obtain ⟨dir, ext, name, content⟩ := c
  obtain ⟨dir', ext', name', content'⟩ := c'
  dsimp only at hname hdir hext hget
  rw [hname, hdir, hext, Option.some.inj hget]

/-- **Discovery and loading agree** exactly when every file that is listed is the first of its name and
has one marker, or no passphrase. -/
theorem discovery_agrees_iff (lib : Library) (kind : Kind) (files : Directories) (dirs : List Text) :
    Agree lib kind files dirs ↔
      ((∀ c, LooksAt lib kind [] (candidates files dirs) c → c.Scanned lib kind) →
        ∀ c, LooksAt lib kind [] (candidates files dirs) c → c.entry lib kind ≠ [] →
          FirstOfName files dirs c ∧ SameMarker lib kind c) := by
  rcases foldlM_listFile lib kind (candidates files dirs) [] with ⟨hscan, found, hf, hmem⟩ | ⟨hscan, hf⟩
  · constructor
    · intro h _ c hc he
      obtain ⟨c', hc', hfound, hloaded⟩ := h found hf _ ((hmem _).mpr (Or.inr ⟨c, hc, he, rfl⟩))
      obtain rfl := eq_of_found_eq (mem_of_looksAt hc) hc' hfound
      exact (loadedFrom_iff hc' he).mp hloaded
    · intro h found' hf' f hfound
      obtain rfl := Except.ok.inj (hf.symm.trans hf')
      obtain ⟨c, hc, he, rfl⟩ := ((hmem f).mp hfound).resolve_left List.not_mem_nil
      exact ⟨c, mem_of_looksAt hc, rfl, (loadedFrom_iff (mem_of_looksAt hc) he).mpr (h hscan c hc he)⟩
  · refine ⟨fun _ hall => absurd hall hscan, fun _ found hf' => ?_⟩
    cases hf.symm.trans hf'

end Listed

/-! ## A marker in two spellings -/

/-- A directory with one file, which says `cloudtype` twice. -/
def twoSpellings : Directories := fun d =>
  if d = "/creds".toList then
    some ⟨[("prod.cfg".toList, some "cloudtype=aws\nCLOUDTYPE=gcp\n".toList)], by decide⟩
  else none

/-- **The file is listed for one provider and loaded for another.** -/
theorem other_provider_loaded : ¬ Agree strictLibrary .cloud twoSpellings ["/creds".toList] := by
  intro h
  have hf : listFound strictLibrary .cloud twoSpellings ["/creds".toList] =
      .ok [⟨"prod".toList, "aws".toList, "/creds".toList, ".cfg".toList⟩] := by decide
  obtain ⟨c, hc, hfound, hloaded⟩ := h _ hf _ List.mem_cons_self
  have hfiles : candidates twoSpellings ["/creds".toList] = [⟨"/creds".toList, ".cfg".toList,
      "prod".toList, some "cloudtype=aws\nCLOUDTYPE=gcp\n".toList⟩] := by decide
  have he : c.entry strictLibrary .cloud ≠ [] := by
    rw [← (Found.mk.inj hfound).2.1]
    decide
  have hsame := ((loadedFrom_iff hc he).mp hloaded).2
  rw [hfiles] at hc
  obtain rfl := List.mem_singleton.mp hc
  -- nothing in it is encrypted
  obtain ⟨data, hdata, hlast, hopen⟩ : ∃ data, Candidate.reloaded strictLibrary ⟨"/creds".toList,
      ".cfg".toList, "prod".toList, some "cloudtype=aws\nCLOUDTYPE=gcp\n".toList⟩ = some data ∧
      lastText strictLibrary .cloud data.entries = "gcp".toList ∧
      ∃ s cache, Opened strictLibrary .cloud s cache ⟨"/creds".toList, ".cfg".toList, "prod".toList,
        some "cloudtype=aws\nCLOUDTYPE=gcp\n".toList⟩ data :=
    ⟨_, rfl, rfl, ⟨none, none⟩, fun _ => none, _, _, rfl⟩
  have hsays := (hsame data hdata hopen).2
  rw [hlast, ← (Found.mk.inj hfound).2.1] at hsays
  exact absurd hsays (by decide)

end LabInABox.Credentials.Parsed
