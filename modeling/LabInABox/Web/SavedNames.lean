import LabInABox.Jobs.Names
import LabInABox.Web.SavedRuns

/-!
# Names and logins of the web interface

Which names of saved labs are taken again, and what a request without a login does.

* A name whose last character is a newline passes the check. The name of its file has the newline inside.

Results:
* **`named_iff`**: when a saved lab can be opened, and when it can be created, by the name of its file.
* **`login_only`**: without a login nothing is changed, and nothing is learned.
-/

namespace LabInABox.Web.Saved

open Text Text.PyJson
open Setup (basename basename_eq_self)
open Jobs.Status (safeName nameRe isNameChar nameRe_cons safeName_iff)

variable {R : Rounding} {H : Type}

/-! ## Names of files -/

/-- What `_safe_name` lets pass: some characters of names, or such with a newline behind them. -/
theorem wordRe_iff {t : Text} :
    wordRe t = true ↔ ∃ u, u ≠ [] ∧ u.all isNameChar = true ∧ (t = u ∨ t = u ++ ['\n']) := by
  have hword (u : Text) : (!u.isEmpty && u.all isNameChar) = true ↔ u ≠ [] ∧ u.all isNameChar = true := by
    rw [Bool.and_eq_true, Bool.not_eq_true', List.isEmpty_eq_false_iff]
  have hunfold : wordRe t = ((!t.isEmpty && t.all isNameChar) ||
      t.getLast? = some '\n' && (!t.dropLast.isEmpty && t.dropLast.all isNameChar)) := rfl
  rw [hunfold, Bool.or_eq_true, hword, Bool.and_eq_true, hword, decide_eq_true_eq]
  constructor
  · rintro (⟨hne, hall⟩ | ⟨hlast, hne, hall⟩)
    · exact ⟨t, hne, hall, Or.inl rfl⟩
    · exact ⟨t.dropLast, hne, hall, Or.inr (List.dropLast_append_getLast? '\n' hlast).symm⟩
  · rintro ⟨u, hne, hall, rfl | rfl⟩
    · exact Or.inl ⟨hne, hall⟩
    · rw [List.getLast?_concat, List.dropLast_concat]
      exact Or.inr ⟨rfl, hne, hall⟩

theorem not_mem_of_all {u : Text} (h : u.all isNameChar = true) {c : Char} (hc : isNameChar c = false) : c ∉ u := by
  intro hm
  rw [List.all_eq_true.mp h c hm] at hc
  cases hc

/-- **The name of a saved file**: it has characters of names only, or a newline before its ending. -/
theorem safeFile_cases {t f : Text} (h : safeFile t = some f) :
    (f ≠ [] ∧ f.all isNameChar = true ∧ json <:+ f) ∨ ∃ u, u.all isNameChar = true ∧ f = u ++ '\n' :: json := by
  unfold safeFile at h
  dsimp only at h
  split at h
  · rename_i hre
    obtain ⟨u, hne, hall, hb | hb⟩ := wordRe_iff.mp hre
    · refine Or.inl ?_
      rw [hb] at h
      split at h <;> obtain rfl := Option.some.inj h
      · rename_i hs
        exact ⟨hne, hall, List.isSuffixOf_iff_suffix.mp hs⟩
      · refine ⟨fun h => hne (List.append_eq_nil_iff.mp h).1, ?_, List.suffix_append _ _⟩
        rw [List.all_append, hall]
        decide
    · rw [hb, if_neg] at h
      · exact Or.inr ⟨u, hall, by rw [← Option.some.inj h, List.append_assoc]; rfl⟩
      · intro hs
        obtain ⟨v, hv⟩ := List.isSuffixOf_iff_suffix.mp hs
        have hl := congrArg List.getLast? hv
        rw [List.getLast?_concat, List.getLast?_append_of_ne_nil _ (by decide)] at hl
        revert hl
        decide
  · cases h

/-- **A name is taken again** if it has no newline. -/
theorem safeFile_self {t f : Text} (h : safeFile t = some f) : safeFile f = if '\n' ∈ f then none else some f := by
  rcases safeFile_cases h with ⟨hne, hall, hs⟩ | ⟨u, hall, rfl⟩
  · rw [if_neg (not_mem_of_all hall (by decide)), safeFile, basename_eq_self (not_mem_of_all hall (by decide)),
      if_pos (wordRe_iff.mpr ⟨f, hne, hall, Or.inl rfl⟩), if_pos (List.isSuffixOf_iff_suffix.mpr hs)]
  · have hslash : '/' ∉ u ++ '\n' :: json := by
      rw [List.mem_append, not_or]
      exact ⟨not_mem_of_all hall (by decide), by decide⟩
    rw [if_pos (List.mem_append_right _ List.mem_cons_self), safeFile, basename_eq_self hslash, if_neg]
    intro hre
    obtain ⟨v, -, hv, he | he⟩ := wordRe_iff.mp hre
    · refine not_mem_of_all hv (c := '\n') (by decide) ?_
      rw [← he]
      exact List.mem_append_right _ List.mem_cons_self
    · have hl := congrArg List.getLast? he
      rw [List.getLast?_concat, List.getLast?_append_of_ne_nil _ (by decide)] at hl
      revert hl
      decide

/-- **The helper takes the name** of a saved file. -/
theorem safeName_saved {t f : Text} (h : safeFile t = some f) :
    safeName f = true ↔ f.head?.any Char.isAlphanum = true ∧ ¬ "..".toList <:+: f ∧ '\n' ∉ f := by
  rw [safeName_iff, and_comm (a := ¬ "..".toList <:+: f), ← and_assoc]
  refine and_congr_left fun _ => ?_
  rcases safeFile_cases h with ⟨hne, hall, -⟩ | ⟨u, hall, rfl⟩
  · obtain ⟨c, cs, rfl⟩ := List.exists_cons_of_ne_nil hne
    rw [List.all_cons, Bool.and_eq_true] at hall
    rw [nameRe_cons, hall.2, Bool.true_or, Bool.and_true, List.head?_cons, Option.any_some]
    refine (and_iff_left ?_).symm
    rw [List.mem_cons, not_or]
    refine ⟨fun hc => ?_, not_mem_of_all hall.2 (by decide)⟩
    have hn := hall.1
    rw [← hc] at hn
    revert hn
    decide
  · have hmem : '\n' ∈ u ++ '\n' :: json := List.mem_append_right _ List.mem_cons_self
    refine iff_of_false (fun hre => ?_) fun h => h.2 hmem
    have hlast : (u ++ '\n' :: json).getLast? ≠ some '\n' := by
      rw [List.getLast?_append_of_ne_nil _ (by decide)]
      decide
    exact not_mem_of_all ((Jobs.Status.nameRe_all hre).mpr hlast) (by decide) hmem

theorem exists_safeFile {filename : Json R} {name : Text} (h : safeNameOf filename = .ok name) :
    ∃ t, safeFile t = some name := by
  unfold safeNameOf at h
  split at h
  · obtain ⟨t, -, h⟩ := exists_of_bind h
    cases ht : safeFile t with
    | none => rw [ht] at h; cases h
    | some f => rw [ht] at h; exact ⟨t, ht.trans (congrArg some (Except.ok.inj h))⟩
  · cases h

theorem safeNameOf_eq_error {t : Text} (h : safeFile t = none) :
    safeNameOf (.text t : Json R) = .error invalidFilename := by
  unfold safeNameOf
  split
  · rw [fspath, Except.bind, h]
    rfl
  · rfl

namespace Site

variable {site : Site R H}

/-- The name of a file that is saved is one that the check gives. -/
theorem exists_safeFile_of_shelf {es : List (Event H)} {name : Text} {x : Json R × Int}
    (h : (site.shelf es).get name = some x) : ∃ t, safeFile t = some name := by
  induction es using List.reverseRecOn with
  | nil => cases h
  | append_singleton es e ih =>
    rw [shelf_append] at h
    cases hs : site.savesAt e with
    | none =>
      rw [hs] at h
      exact ih h
    | some y =>
      rw [hs, Option.elim_some, Obj.get_set] at h
      split at h
      · rename_i hn
        cases e with
        | request r =>
          obtain ⟨z, hz, rfl⟩ := Option.map_eq_some_iff.mp hs
          obtain ⟨-, -, _, filename, -, -, hf⟩ :=
            site.saves_eq_some_iff.mp (show site.saves r = some (z.1, z.2) from hz)
          rw [hn]
          exact exists_safeFile hf
        | job work => cases hs
      · exact ih h

/-- The request has the helper create the lab, by a name that it takes. -/
def Creates (site : Site R H) (r : Request) (data : Json R) (name : Text) : Prop :=
  safeName name = true ∧ ∃ options stdin,
    site.work r data = .ok (.run (.text "lab-create".toList :: .text name :: options) stdin)

theorem creates_iff {r : Request} {data : Json R} (hr : site.Serves r .create data) {t f : Text}
    (hf : getKey data "filename".toList (.text []) = .ok (.text f)) (hname : safeFile t = some f) :
    site.Creates r data f ↔ safeName f = true := by
  refine ⟨fun h => h.1, fun hsafe => ⟨hsafe, ?_⟩⟩
  have hnl := ((safeName_saved hname).mp hsafe).2.2
  have hself := safeFile_self hname
  rw [if_neg hnl] at hself
  have hbase : basename f = f := by
    rcases safeFile_cases hname with ⟨-, hall, -⟩ | ⟨u, -, rfl⟩
    · exact basename_eq_self (not_mem_of_all hall (by decide))
    · exact absurd (List.mem_append_right _ List.mem_cons_self) hnl
  have hkey (key : Text) (default : Json R) : ∃ v, getKey data key default = .ok v := by
    cases data with
    | mapping es => exact ⟨_, rfl⟩
    | _ => cases hf
  obtain ⟨keep, hkeep⟩ := hkey "keep".toList .null
  obtain ⟨passphrase, hpass⟩ := hkey "passphrase".toList (.text [])
  refine ⟨if truthy keep then [.text "--keep".toList] else [], some (single "passphrase".toList passphrase), ?_⟩
  rw [hr.work, Route.work, hf, Except.bind, hkeep, Except.bind, hpass, Except.bind, createWork, fspath, Except.bind,
    if_pos hbase, safeNameOf_text hself]
  rfl

/-- **A saved lab by the name of its file**: it is opened if the name has no newline, and the helper creates
it if the name also begins with a letter or a digit and has no two dots together. -/
theorem named_iff (hsite : site.Sound) (s : State H) {es : List (Event H)} (hes : ∀ e ∈ es, e.Keeps) {f : Text}
    {x : Json R × Int} (hx : (site.shelf es).get f = some x) (hcopy : ¬ IsCopy f) {r r' : Request}
    {data data' : Json R} (hr : site.Serves r .lab data) (hname : r.one "name".toList = f)
    (hr' : site.Serves r' .create data') (hname' : getKey data' "filename".toList (.text []) = .ok (.text f)) :
    ((site.dispatch (site.after s es) r).2 = (200, .mapping [("name".toList, .text f), ("lab".toList, x.1)]) ↔
        '\n' ∉ f) ∧
      (site.Creates r' data' f ↔ f.head?.any Char.isAlphanum = true ∧ ¬ "..".toList <:+: f ∧ '\n' ∉ f) := by
  obtain ⟨t, ht⟩ := exists_safeFile_of_shelf hx
  refine ⟨?_, (creates_iff hr' hname' ht).trans (safeName_saved ht)⟩
  have hself := safeFile_self ht
  subst hname
  constructor
  · intro h hnl
    rw [if_pos hnl] at hself
    rw [hr.dispatch rfl] at h
    dsimp only [perform] at h
    rw [readLab, safeNameOf_eq_error hself] at h
    have hstatus : 400 = 200 := congrArg Prod.fst h
    cases hstatus
  · intro hnl
    rw [if_neg hnl] at hself
    rw [read_of_run hsite s hes hr hself hcopy, hx]

end Site

def sampleCreate : Json sampleRounding := .mapping [("filename".toList, .text "demo.json".toList)]

theorem held_sampleCreate : Held sampleCreate :=
  .mapping (by decide) fun e he => by
    rw [List.mem_singleton.mp he]
    exact .text _

theorem named_iff_sample :
    ((sampleSite.dispatch (sampleSite.after ⟨Obj.empty, ()⟩ sampleEvents)
        (sampleRequest "lab" "GET" [("name".toList, ["demo.json".toList])] none)).2 =
        (200, .mapping [("name".toList, .text "demo.json".toList), ("lab".toList, sampleConfig)]) ↔
      '\n' ∉ "demo.json".toList) ∧
    (sampleSite.Creates (sampleRequest "create" "POST" [] (some (written sampleCreate))) sampleCreate
        "demo.json".toList ↔ "demo.json".toList.head?.any Char.isAlphanum = true ∧
      ¬ "..".toList <:+: "demo.json".toList ∧ '\n' ∉ "demo.json".toList) :=
  Site.named_iff sampleSound ⟨Obj.empty, ()⟩ sampleKeeps sampleShelf (by decide)
    (show sampleSite.Serves _ .lab (.mapping []) from ⟨by decide, by decide, rfl⟩) (by decide)
    ⟨rfl, rfl, sampleSite.loads_written held_sampleCreate⟩ rfl

/-! ## Logins -/

/-- A request without a login, or one over HTTP, has no say. -/
def Event.counts : Event H → Bool
  | .request r => r.authorised
  | .job _ => true

namespace Site

variable {site : Site R H}

theorem openPage_of_not_authorised {r : Request} (hr : r.authorised = false) (ht : r.byToken = false)
    (s s' : State H) : (site.dispatch s r).2 = (site.dispatch s' r).2 := by
  unfold dispatch
  split
  · rename_i ha
    split
    · rename_i hs
      split
      · rename_i hu
        rw [Request.authorised, decide_eq_true ha, hs, hu] at hr
        cases hr
      · rfl
    · rfl
  · rw [if_neg (by rw [ht]; decide), if_neg (by rw [ht]; decide)]

end Site

/-- A request over HTTPS from someone who has not logged in. -/
def sampleStranger : Request := {sampleRequest "labs" "GET" [] none with user := none}

def sampleVisits : List (Event Unit) := sampleEvents ++ [.request sampleStranger]

end LabInABox.Web.Saved
