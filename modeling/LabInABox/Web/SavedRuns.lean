import LabInABox.Web.Saved

/-!
# Runs of the web interface

What requests leave of the saved labs, and what a later request reads.

Results:
* `labs_dispatch`, `labs_after`: what a request, and what a run leaves of the labs.
* **`read_of_run`**: a lab is read as it was saved last.
* **`listed_of_run`**: the labs are listed with the times they were saved last, the newest first.
-/

namespace LabInABox.Web.Saved

open Text Text.PyJson

variable {R : Rounding} {H : Type}

/-! ## Labs as texts -/

theorem SameLabs.refl (labs : Obj Text LabFile) : SameLabs labs labs := fun _ _ => rfl

theorem isBlank_newline : Blanks ['\n'] := fun c hc => by
  rw [List.mem_singleton.mp hc]
  rfl

theorem held_getKey {data default v : Json R} {key : Text} (hdata : Held data) (hdefault : Held default)
    (h : getKey data key default = .ok v) : Held v := by
  cases hdata with
  | mapping hnd hes =>
    rename_i es
    have hv : (es.lookup key).getD default = v := Except.ok.inj h
    rw [← hv]
    cases hl : es.lookup key with
    | none => exact hdefault
    | some w =>
      obtain ⟨l₁, l₂, he, -⟩ := List.lookup_eq_some_iff.mp hl
      exact hes (key, w) (by rw [he]; exact List.mem_append_right _ List.mem_cons_self)
  | _ => cases h

namespace Site

variable (site : Site R H)

/-- **A lab that was written** is read as it was. -/
theorem loads_written {v : Json R} (h : Held v) : site.loads (written v) = .ok v := by
  have hload : jsonLoad (written v) = some v := jsonLoad_jsonDump h 2 blanks_nil isBlank_newline
  rw [loads, hload]
  rfl

theorem held_data {r : Request} {d : Json R} (h : site.data r = .ok d) : Held d := by
  unfold data at h
  split at h
  · obtain rfl := Except.ok.inj h
    exact .mapping List.nodup_nil fun e he => by cases he
  · cases h
  · rename_i t _
    unfold loads at h
    cases ht : (jsonLoad t : Option (Json R)) with
    | none => rw [ht] at h; cases h
    | some v =>
      rw [ht] at h
      obtain rfl := Except.ok.inj h
      exact held_of_jsonLoad ht

end Site

/-! ## What a request saves -/

/-- The lab that the work saves for a request, with the name of its file. -/
def Work.saved (r : Request) : Work R → Option (Text × Json R)
  | .save filename config =>
    match r.opens, safeNameOf filename with
    | none, .ok name => some (name, config)
    | _, _ => none
  | _ => none

theorem Work.saved_eq_some_iff {r : Request} {w : Work R} {name : Text} {v : Json R} :
    w.saved r = some (name, v) ↔
      r.opens = none ∧ ∃ filename, w = .save filename v ∧ safeNameOf filename = .ok name := by
  cases w with
  | save filename config =>
    rw [Work.saved]
    cases r.opens with
    | some e => simp
    | none =>
      cases hn : safeNameOf filename with
      | error e => simp [hn]
      | ok n => simp [hn, and_comm]
  | _ => simp [Work.saved]

theorem exists_of_bind {α β : Type} {x : Except Raised α} {f : α → Except Raised β} {b : β}
    (h : x.bind f = .ok b) : ∃ a, x = .ok a ∧ f a = .ok b := by
  cases x with
  | error e => cases h
  | ok a => exact ⟨a, rfl, h⟩

theorem exists_of_map {α β : Type} {x : Except Raised α} {f : α → β} {b : β} (h : x.map f = .ok b) :
    ∃ a, x = .ok a ∧ f a = b := by
  cases x with
  | error e => cases h
  | ok a => exact ⟨a, rfl, Except.ok.inj h⟩

/-- **Only one action saves**, what the request gives it. -/
theorem Route.work_save {r : Request} {route : Route} {data filename config : Json R}
    (h : route.work r data = .ok (.save filename config)) :
    route = .save ∧ getKey data "filename".toList (.text "lab".toList) = .ok filename ∧
      getKey data "config".toList (.mapping []) = .ok config := by
  cases route with
  | labs => cases h
  | lab => cases h
  | save =>
    obtain ⟨f, hf, h⟩ := exists_of_bind h
    obtain ⟨c, hc, h⟩ := exists_of_map h
    cases h
    exact ⟨rfl, hf, hc⟩
  | credentials => cases h
  | credentialsAdd => cases h
  | credentialsEncrypt =>
    obtain ⟨f, -, h⟩ := exists_of_bind h
    obtain ⟨p, -, h⟩ := exists_of_map h
    cases h
  | credentialsDelete =>
    obtain ⟨f, -, h⟩ := exists_of_map h
    cases h
  | create =>
    obtain ⟨f, -, h⟩ := exists_of_bind h
    obtain ⟨k, -, h⟩ := exists_of_bind h
    obtain ⟨p, -, h⟩ := exists_of_bind h
    obtain ⟨t, -, h⟩ := exists_of_bind h
    split at h
    · obtain ⟨n, -, h⟩ := exists_of_map h
      cases h
    · cases h
  | job => cases h
  | jobs => cases h

namespace Site

variable (site : Site R H)

/-- The lab that a request saves, with the name of its file. -/
def saves (r : Request) : Option (Text × Json R) :=
  if r.authorised then (site.data r).toOption.bind fun data => (site.work r data).toOption.bind (Work.saved r)
  else none

theorem toOption_eq_some {α : Type} {x : Except Raised α} {a : α} : x.toOption = some a ↔ x = .ok a := by
  cases x <;> simp [Except.toOption]

theorem saves_eq_some_iff {r : Request} {name : Text} {v : Json R} :
    site.saves r = some (name, v) ↔
      r.authorised = true ∧ r.opens = none ∧ ∃ data filename, site.data r = .ok data ∧
        site.work r data = .ok (.save filename v) ∧ safeNameOf filename = .ok name := by
  unfold saves
  by_cases hr : r.authorised = true
  · rw [if_pos hr]
    constructor
    · intro h
      obtain ⟨data, hdata, h⟩ := Option.bind_eq_some_iff.mp h
      obtain ⟨w, hw, h⟩ := Option.bind_eq_some_iff.mp h
      obtain ⟨ho, filename, hf, hn⟩ := Work.saved_eq_some_iff.mp h
      exact ⟨hr, ho, data, filename, toOption_eq_some.mp hdata, hf ▸ toOption_eq_some.mp hw, hn⟩
    · rintro ⟨-, ho, data, filename, hdata, hw, hn⟩
      rw [hdata, Except.toOption, Option.bind_some, hw, Except.toOption, Option.bind_some]
      exact Work.saved_eq_some_iff.mpr ⟨ho, filename, rfl, hn⟩
  · rw [if_neg hr]
    exact ⟨fun h => (by cases h), fun h => absurd h.1 hr⟩

theorem held_saves {r : Request} {name : Text} {v : Json R} (h : site.saves r = some (name, v)) : Held v := by
  obtain ⟨-, -, data, filename, hdata, hw, -⟩ := site.saves_eq_some_iff.mp h
  unfold work at hw
  split at hw
  · obtain ⟨-, -, hv⟩ := Route.work_save hw
    have hempty : Held (.mapping [] : Json R) := .mapping List.nodup_nil fun e he => by cases he
    exact held_getKey (site.held_data hdata) hempty hv
  · cases hw

/-! ## What a request does -/

theorem dispatch_of_authorised {r : Request} (hr : r.authorised = true) (s : State H) :
    site.dispatch s r =
      match site.data r with
      | .error e => (s, answer (.error e))
      | .ok data => ((site.handle s r data).1, answer (site.handle s r data).2) := by
  unfold Request.authorised at hr
  rw [Bool.and_eq_true, Bool.and_eq_true, decide_eq_true_eq] at hr
  unfold dispatch
  exact (if_pos hr.1.1).trans ((if_pos hr.1.2).trans (if_pos hr.2))

variable {site} (hsite : site.Sound)
include hsite

theorem sameLabs_helper (s : State H) (args : List (Json R)) (stdin : Option (Json R)) :
    SameLabs s.labs (site.helper s args stdin).1.labs := by
  unfold helper
  split
  · exact SameLabs.refl _
  · exact hsite.keeps s _ stdin

theorem helper_pubStatus (s : State H) (r : Request) : (site.pubStatus s r).1 = s := by
  unfold pubStatus helper
  split
  · rfl
  · rename_i args hargs
    refine hsite.reads s args _ ?_
    obtain ⟨t, ht, h⟩ := exists_of_bind hargs
    obtain rfl := Except.ok.inj ht
    split at h
    · cases h
    · obtain ⟨ts, -, h⟩ := exists_of_map h
      rw [← h]
      rfl

/-- The labs with the lab that is saved, if one is. -/
def withSaved (labs : Obj Text LabFile) (r : Request) (save : Option (Text × Json R)) : Obj Text LabFile :=
  save.elim labs fun e => labs.set e.1 ⟨written e.2, r.time⟩

theorem labs_perform (s : State H) (r : Request) (w : Work R) :
    SameLabs (withSaved s.labs r (w.saved r)) (site.perform s r w).1.labs := by
  cases w with
  | labs => exact SameLabs.refl _
  | lab name => exact SameLabs.refl _
  | save filename config =>
    have heq : (site.perform s r (.save filename config)).1.labs =
        withSaved s.labs r ((Work.save filename config).saved r) := by
      rw [perform, saveLab, Work.saved]
      cases safeNameOf filename <;> cases r.opens <;> rfl
    rw [heq]
    exact SameLabs.refl _
  | run args stdin => exact sameLabs_helper hsite s args stdin

theorem labs_handle (s : State H) (r : Request) (data : Json R) :
    SameLabs (withSaved s.labs r ((site.work r data).toOption.bind (Work.saved r)))
      (site.handle s r data).1.labs := by
  unfold handle
  cases site.work r data with
  | error e => exact SameLabs.refl _
  | ok w => exact labs_perform hsite s r w

/-- **Without a login nothing changes.** -/
theorem dispatch_of_not_authorised {r : Request} (hr : r.authorised = false) (s : State H) :
    (site.dispatch s r).1 = s := by
  unfold dispatch
  split
  · rename_i ha
    split
    · rename_i hs
      split
      · rename_i hu
        rw [Request.authorised, decide_eq_true ha, hs, hu] at hr
        cases hr
      · rfl
    · rfl
  · split
    · exact helper_pubStatus hsite s r
    · rfl

/-- **What a request leaves of the labs**: what it saves is there, and the others are as they were. -/
theorem labs_dispatch (s : State H) (r : Request) :
    SameLabs (withSaved s.labs r (site.saves r)) (site.dispatch s r).1.labs := by
  unfold saves
  by_cases hr : r.authorised = true
  · rw [site.dispatch_of_authorised hr, if_pos hr]
    cases site.data r with
    | error e => exact SameLabs.refl _
    | ok data => exact labs_handle hsite s r data
  · rw [if_neg hr, dispatch_of_not_authorised hsite (Bool.not_eq_true _ ▸ hr)]
    exact SameLabs.refl _

end Site

/-! ## Runs -/

namespace Site

variable (site : Site R H)

/-- A request that is served, with its action and its data. -/
structure Serves (r : Request) (route : Route) (data : Json R) : Prop where
  authorised : r.authorised = true
  route : r.route = some route
  data : site.data r = .ok data

/-- What an event saves, and when. -/
def savesAt : Event H → Option (Text × Json R × Int)
  | .request r => (site.saves r).map fun e => (e.1, e.2, r.time)
  | .job _ => none

/-- **The labs that the events save**, each as it is saved last. -/
def shelf (es : List (Event H)) : Obj Text (Json R × Int) := Obj.empty.assign (es.filterMap site.savesAt)

theorem shelf_append (es : List (Event H)) (e : Event H) :
    site.shelf (es ++ [e]) = (site.savesAt e).elim (site.shelf es) fun x => (site.shelf es).set x.1 x.2 := by
  unfold shelf
  rw [List.filterMap_append, Obj.assign_append, List.filterMap_cons, List.filterMap_nil]
  cases site.savesAt e <;> rfl

theorem after_append (s : State H) (es : List (Event H)) (e : Event H) :
    site.after s (es ++ [e]) = (site.step (site.after s es) e).1 := by
  unfold after
  rw [Simulation.answering_append]
  rfl

theorem held_shelf {es : List (Event H)} {name : Text} {x : Json R × Int}
    (h : (site.shelf es).get name = some x) : Held x.1 := by
  induction es using List.reverseRecOn with
  | nil => cases h
  | append_singleton es e ih =>
    rw [shelf_append] at h
    cases hs : site.savesAt e with
    | none =>
      rw [hs] at h
      exact ih h
    | some y =>
      rw [hs, Option.elim_some, Obj.get_set] at h
      split at h
      · obtain rfl := Option.some.inj h
        cases e with
        | request r =>
          obtain ⟨z, hz, rfl⟩ := Option.map_eq_some_iff.mp hs
          exact site.held_saves (show site.saves r = some (z.1, z.2) from hz)
        | job work => cases hs
      · exact ih h

/-- The file of a lab that is on the shelf. -/
def shelved (x : Json R × Int) : LabFile := ⟨written x.1, x.2⟩

variable {site} (hsite : site.Sound)
include hsite

/-- **The labs after a run**: those that were saved, as they were saved last, and the others as before. -/
theorem labs_after (s : State H) {es : List (Event H)} (hes : ∀ e ∈ es, e.Keeps) {name : Text}
    (hname : ¬ IsCopy name) :
    (site.after s es).labs.get name = (((site.shelf es).get name).map shelved).or (s.labs.get name) := by
  induction es using List.reverseRecOn with
  | nil => rfl
  | append_singleton es e ih =>
    have ih := ih fun e he => hes e (List.mem_append_left _ he)
    rw [after_append, shelf_append]
    cases e with
    | job work =>
      have hkeep : Event.Keeps (.job work) := hes _ (List.mem_append_right _ List.mem_cons_self)
      exact (hkeep _ name hname).trans ih
    | request r =>
      refine (labs_dispatch hsite _ r name hname).trans ?_
      cases hs : site.saves r with
      | none =>
        rw [savesAt, hs]
        exact ih
      | some x =>
        rw [savesAt, hs, Option.map_some, Option.elim_some, withSaved, Option.elim_some, Obj.get_set, Obj.get_set]
        split
        · rfl
        · exact ih

/-! ## Reading -/

omit hsite in
theorem Serves.work {r : Request} {route : Route} {data : Json R} (hr : site.Serves r route data) :
    site.work r data = route.work r data := by
  rw [Site.work, hr.route]

omit hsite in
theorem Serves.dispatch {r : Request} {route : Route} {data : Json R} (hr : site.Serves r route data) {w : Work R}
    (hw : route.work r data = .ok w) (s : State H) :
    site.dispatch s r = ((site.perform s r w).1, answer (site.perform s r w).2) := by
  rw [site.dispatch_of_authorised hr.authorised, hr.data]
  unfold handle
  dsimp only
  rw [hr.work, hw]

omit hsite in
theorem safeNameOf_text {t name : Text} (h : safeFile t = some name) : safeNameOf (.text t : Json R) = .ok name := by
  have hne : truthy (.text t : Json R) = true := by
    cases t with
    | nil => cases h
    | cons c cs => rfl
  rw [safeNameOf, if_pos hne, fspath, Except.bind, h]
  rfl

/-- **A lab is read as it was saved last**, or as it was before if no request has saved it. -/
theorem read_of_run (s : State H) {es : List (Event H)} (hes : ∀ e ∈ es, e.Keeps) {r : Request}
    {data : Json R} (hr : site.Serves r .lab data) {name : Text}
    (hname : safeFile (r.one "name".toList) = some name) (hcopy : ¬ IsCopy name) :
    (site.dispatch (site.after s es) r).2 =
      match (site.shelf es).get name with
      | some x => (200, .mapping [("name".toList, .text (r.one "name".toList)), ("lab".toList, x.1)])
      | none => (site.dispatch s r).2 := by
  rw [hr.dispatch rfl, hr.dispatch rfl]
  dsimp only [perform]
  rw [readLab, readLab, safeNameOf_text hname, Except.bind, Except.bind, labs_after hsite s hes hcopy]
  cases hx : (site.shelf es).get name with
  | none => rfl
  | some x =>
    rw [Option.map_some, Option.some_or]
    dsimp only [shelved]
    rw [site.loads_written (site.held_shelf hx)]
    rfl

/-! ## Listing -/

omit hsite in
theorem mem_listLabs (hdir : ∀ names, (site.listdir names).Perm names) {labs : Obj Text LabFile} {lab : Text × Int} :
    lab ∈ site.listLabs labs ↔ json <:+ lab.1 ∧ (labs.get lab.1).map LabFile.modified = some lab.2 := by
  unfold listLabs
  rw [List.mem_mergeSort, List.mem_filterMap]
  constructor
  · rintro ⟨name, hname, h⟩
    obtain ⟨file, hf, rfl⟩ := Option.map_eq_some_iff.mp h
    rw [List.mem_filter, List.isSuffixOf_iff_suffix] at hname
    exact ⟨hname.2, by rw [hf]; rfl⟩
  · rintro ⟨hj, h⟩
    obtain ⟨file, hf, ht⟩ := Option.map_eq_some_iff.mp h
    refine ⟨lab.1, ?_, ?_⟩
    · rw [List.mem_filter, List.isSuffixOf_iff_suffix, (hdir _).mem_iff]
      exact ⟨Obj.mem_keys_iff.mpr ⟨file, hf⟩, hj⟩
    · rw [hf, Option.map_some, ht]

omit hsite in
theorem nodup_listLabs (hdir : ∀ names, (site.listdir names).Perm names) (labs : Obj Text LabFile) :
    ((site.listLabs labs).map Prod.fst).Nodup := by
  unfold listLabs
  rw [((List.mergeSort_perm _ _).map Prod.fst).nodup_iff, List.map_filterMap]
  refine List.Nodup.filterMap (fun f f' name h h' => ?_) (((hdir _).nodup_iff.mpr labs.nodup).filter _)
  have key : ∀ {f name : Text}, name ∈ ((labs.get f).map fun file => (f, file.modified)).map Prod.fst → f = name := by
    intro f name h
    obtain ⟨lab, hlab, rfl⟩ := Option.map_eq_some_iff.mp h
    obtain ⟨file, -, rfl⟩ := Option.map_eq_some_iff.mp hlab
    rfl
  exact (key h).trans (key h').symm

omit hsite in
theorem pairwise_listLabs (labs : Obj Text LabFile) :
    (site.listLabs labs).Pairwise fun lab lab' => lab'.2 ≤ lab.2 := by
  refine (List.pairwise_mergeSort (fun a b c hab hbc => ?_) (fun a b => ?_) _).imp (of_decide_eq_true ·)
  · exact decide_eq_true ((of_decide_eq_true hbc).trans (of_decide_eq_true hab))
  · rw [Bool.or_eq_true, decide_eq_true_eq, decide_eq_true_eq]
    exact le_total _ _

/-- **The labs are listed**, each once with the time it was saved last, the newest first. -/
theorem listed_of_run (hdir : ∀ names, (site.listdir names).Perm names) (s : State H) {es : List (Event H)}
    (hes : ∀ e ∈ es, e.Keeps) {r : Request} {data : Json R} (hr : site.Serves r .labs data) :
    ∃ labs : List (Text × Int),
      (site.dispatch (site.after s es) r).2 = (200, single "labs".toList (.list (labs.map labEntry))) ∧
      labs.Pairwise (fun lab lab' => lab'.2 ≤ lab.2) ∧ (labs.map Prod.fst).Nodup ∧
      ∀ name time, ¬ IsCopy name → ((name, time) ∈ labs ↔ json <:+ name ∧
        (((site.shelf es).get name).map Prod.snd).or ((s.labs.get name).map LabFile.modified) = some time) := by
  refine ⟨site.listLabs (site.after s es).labs, ?_, pairwise_listLabs _, nodup_listLabs hdir _, ?_⟩
  · rw [hr.dispatch rfl]
    rfl
  · intro name time hname
    rw [mem_listLabs hdir, labs_after hsite s hes hname]
    refine and_congr_right fun _ => ?_
    cases (site.shelf es).get name <;> rfl

end Site

/-! ## A site -/

def sampleRounding : Rounding := ⟨.finite, Rounding.finite_idem⟩

/-- A helper that has nothing to say. -/
def sampleSite : Site sampleRounding Unit where
  outputDir := "/labs".toList
  str := typeName
  repr := fun t => t
  syntaxError := fun t => t
  listdir := fun names => names
  noFile := Raised.refused
  process := fun s _ _ => (s, ⟨0, none, []⟩)
  loginConfigured := true
  page := fun _ _ => .ok .null
  checked := fun _ v => .ok v

theorem sampleSound : sampleSite.Sound where
  keeps _ _ _ := SameLabs.refl _
  reads _ _ _ _ := rfl

/-- A request of someone who is logged in. -/
def sampleRequest (action method : String) (params : List (Text × List Text)) (body : Option Text) : Request :=
  ⟨action.toList, method.toList, Obj.empty.assign params, body.map .ok, some "eve".toList, true, 7, none⟩

def sampleConfig : Json sampleRounding := .mapping [("nodes".toList, .list [])]

def sampleData (config : Json sampleRounding) : Json sampleRounding :=
  .mapping [("filename".toList, .text "labs/demo".toList), ("config".toList, config)]

theorem held_sampleConfig : Held sampleConfig :=
  .mapping (by decide) fun e he => by
    rw [List.mem_singleton.mp he]
    exact .list fun v hv => by cases hv

theorem held_sampleData {config : Json sampleRounding} (h : Held config) : Held (sampleData config) :=
  .mapping (show ["filename".toList, "config".toList].Nodup by decide) fun e he => by
    rcases List.mem_cons.mp he with rfl | he
    · exact .text _
    · rw [List.mem_singleton.mp he]
      exact h

def sampleEvents : List (Event Unit) :=
  [.request (sampleRequest "save" "POST" [] (some (written (sampleData .null)))),
    .request (sampleRequest "save" "POST" [] (some (written (sampleData sampleConfig)))), .job id]

theorem sampleSaves {config : Json sampleRounding} (h : Held config) :
    sampleSite.saves (sampleRequest "save" "POST" [] (some (written (sampleData config)))) =
      some ("demo.json".toList, config) :=
  sampleSite.saves_eq_some_iff.mpr ⟨rfl, rfl, sampleData config, .text "labs/demo".toList,
    sampleSite.loads_written (held_sampleData h), rfl, by rfl⟩

theorem sampleShelf : (sampleSite.shelf sampleEvents).get "demo.json".toList = some (sampleConfig, 7) := by
  have hsaves : sampleEvents.filterMap sampleSite.savesAt =
      [("demo.json".toList, .null, 7), ("demo.json".toList, sampleConfig, 7)] := by
    rw [sampleEvents, List.filterMap_cons_some (b := ("demo.json".toList, .null, 7)), List.filterMap_cons_some
      (b := ("demo.json".toList, sampleConfig, 7))]
    · rfl
    · rw [Site.savesAt, sampleSaves held_sampleConfig]
      rfl
    · rw [Site.savesAt, sampleSaves .null]
      rfl
  rw [Site.shelf, hsaves]
  rfl

theorem sampleKeeps : ∀ e ∈ sampleEvents, e.Keeps := by
  simp [sampleEvents, Event.Keeps, SameLabs]

theorem read_of_run_sample :
    (sampleSite.dispatch (sampleSite.after ⟨Obj.empty, ()⟩ sampleEvents)
        (sampleRequest "lab" "GET" [("name".toList, ["../demo".toList])] none)).2 =
      (200, .mapping [("name".toList, .text "../demo".toList), ("lab".toList, sampleConfig)]) :=
  (Site.read_of_run sampleSound ⟨Obj.empty, ()⟩ sampleKeeps
    (show sampleSite.Serves _ .lab (.mapping []) from ⟨by decide, by decide, rfl⟩)
    (show _ = some "demo.json".toList by decide) (by decide)).trans (by rw [sampleShelf]; rfl)

theorem listed_of_run_sample :
    ∃ labs : List (Text × Int),
      (sampleSite.dispatch (sampleSite.after ⟨Obj.empty, ()⟩ sampleEvents)
        (sampleRequest "labs" "GET" [] none)).2 = (200, single "labs".toList (.list (labs.map labEntry))) ∧
      labs.Pairwise (fun lab lab' => lab'.2 ≤ lab.2) ∧ (labs.map Prod.fst).Nodup ∧
      ∀ name time, ¬ IsCopy name → ((name, time) ∈ labs ↔ json <:+ name ∧
        (((sampleSite.shelf sampleEvents).get name).map Prod.snd).or none = some time) :=
  Site.listed_of_run sampleSound (fun _ => List.Perm.refl _) ⟨Obj.empty, ()⟩ sampleKeeps
    (show sampleSite.Serves _ .labs (.mapping []) from ⟨by decide, by decide, rfl⟩)

end LabInABox.Web.Saved
