import LabInABox.Objects
import LabInABox.Text.Lines

/-!
# The public status of a job

Model of `pub_status`, what it calls, and how `main` answers (`scripts/lab_builder_helper.py`).

* The directory of a job is given by what reading its files comes to: `job.json` parsed, `rc` as a
  number, `log` as a text. `json.loads` of a file never fails with the words of the refusal.
* A text that is not made of characters (a lone surrogate) is treated as a value that is no text: it
  cannot be compared either.
* `str` of a list or a mapping, `repr`, Python's own messages and `qrencode` are parameters.

Results:
* `pubStatus_eq_wrongLink_iff`: when the answer is the refusal that a missing job gets.
* `mentions_iff`: when the answer for the right token contains it.
* `pubStatus_leaks_iff`: both.
-/

namespace LabInABox.Jobs.Status

open Text

/-! ## JSON -/

/-- A JSON value. -/
inductive Json
  | null
  | bool (b : Bool)
  | int (n : Int)
  | real (shown : Text) (zero : Bool)
  | text (t : Text)
  | list (items : List Json)
  | mapping (entries : List (Text × Json))

/-- A mapping of names to values. -/
abbrev Data := Obj Text Json

/-- `bool(value)`. -/
def Json.truthy : Json → Bool
  | null => false
  | bool b => b
  | int n => n ≠ 0
  | real _ zero => !zero
  | text t => t ≠ []
  | list items => !items.isEmpty
  | mapping entries => !entries.isEmpty

mutual

/-- The texts in a value, keys included. -/
def Json.texts : Json → List Text
  | .text t => [t]
  | .list items => textsOfItems items
  | .mapping entries => textsOfEntries entries
  | _ => []

def textsOfItems : List Json → List Text
  | [] => []
  | v :: vs => v.texts ++ textsOfItems vs

def textsOfEntries : List (Text × Json) → List Text
  | [] => []
  | (k, v) :: es => k :: v.texts ++ textsOfEntries es

end

/-! ## Outcomes -/

/-- What a call comes to: a value, an exception that `main` catches, or another one. -/
inductive Outcome (α : Type)
  | ok (a : α)
  | error (message : Text)
  | crash (trace : Text)

/-- What comes after it. -/
def Outcome.bind {α β : Type} : Outcome α → (α → Outcome β) → Outcome β
  | ok a, f => f a
  | error message, _ => .error message
  | crash trace, _ => .crash trace

theorem Outcome.error_bind {α β : Type} (message : Text) (f : α → Outcome β) :
    (Outcome.error message).bind f = .error message := rfl

theorem Outcome.crash_bind {α β : Type} (trace : Text) (f : α → Outcome β) :
    (Outcome.crash trace).bind f = .crash trace := rfl

theorem Outcome.bind_eq_ok {α β : Type} {x : Outcome α} {f : α → Outcome β} {b : β} :
    x.bind f = .ok b ↔ ∃ a, x = .ok a ∧ f a = .ok b := by
  cases x with
  | ok a =>
    constructor
    · exact fun h => ⟨a, rfl, h⟩
    · rintro ⟨_, ha, h⟩
      cases ha
      exact h
  | _ =>
    constructor
    · intro h
      cases h
    · rintro ⟨_, ha, _⟩
      cases ha

theorem Outcome.bind_eq_error {α β : Type} {x : Outcome α} {f : α → Outcome β} {message : Text} :
    x.bind f = .error message ↔ x = .error message ∨ ∃ a, x = .ok a ∧ f a = .error message := by
  cases x with
  | ok a =>
    constructor
    · exact fun h => Or.inr ⟨a, rfl, h⟩
    · rintro (h | ⟨_, ha, h⟩)
      · cases h
      · cases ha
        exact h
  | error e =>
    constructor
    · intro h
      cases h
      exact Or.inl rfl
    · rintro (h | ⟨_, ha, _⟩)
      · cases h
        rfl
      · cases ha
  | crash trace =>
    constructor
    · intro h
      cases h
    · rintro (h | ⟨_, ha, _⟩)
      · cases h
      · cases ha

/-- The refusal. -/
def wrongLink : Text := "no such lab or wrong link".toList

/-- What the code uses that is not its own. -/
structure Machine where
  procExists : Text → Bool
  fqdn : Text
  renderSvg : Text → Outcome (Option Text)
  renderSvg_ne : ∀ url, renderSvg url ≠ .error wrongLink
  /-- `repr` of a text -/
  repr : Text → Text
  /-- `str` of a list or a mapping -/
  shown : Json → Text
  noAttribute : Json → Text
  notComparable : Json → Text

/-- `str(value)`. -/
def Machine.str (m : Machine) : Json → Text
  | .null => "None".toList
  | .bool true => "True".toList
  | .bool false => "False".toList
  | .int n => (toString n).toList
  | .real shown _ => shown
  | .text t => t
  | v => m.shown v

/-- The files of a job's directory. -/
structure JobFiles where
  jobJson : Option (Outcome Json)
  /-- the number in `rc`, none where it is absent or blank -/
  rc : Outcome (Option Int)
  log : Option Text
  jobJson_ne : jobJson ≠ some (.error wrongLink)
  rc_ne : rc ≠ .error wrongLink

/-! ## The command -/

section Command

variable (m : Machine) (job : Text) (s : JobFiles)

/-- A match of `NAME_RE`, whose `$` lets a last newline pass. -/
def nameRe : Text → Bool
  | [] => false
  | c :: cs =>
    let word (t : Text) := t.all fun c => c.isAlphanum || c = '.' || c = '_' || c = '-'
    c.isAlphanum && (word cs || cs.getLast? = some '\n' && word cs.dropLast)

/-- `safe_name(name, what)` returns. -/
def safeName (name : Text) : Bool := nameRe name && !name.tails.any fun u => "..".toList.isPrefixOf u

/-- `read_stdin()`, of what stdin holds, if anything. -/
def readStdin : Option (Outcome Json) → Outcome Data
  | none => .ok Obj.empty
  | some r => r.bind fun v =>
    match v with
    | .mapping entries => .ok (Obj.empty.assign entries)
    | _ => .error "stdin must hold a JSON object".toList

/-- `status_url(job, token)`. -/
def statusUrl (token : Text) : Text :=
  "https://".toList ++ m.fqdn ++ "/lab-builder/status.html?job=".toList ++ job ++ "&token=".toList ++ token

/-- The state in the answer. -/
def stateWord (info : Data) : Option Int → Text
  | some rc => if rc = 0 then "done".toList else "failed".toList
  | none =>
    if m.procExists (m.str ((info.get "pid".toList).getD (.int 0))) then "running".toList
    else "failed".toList

/-- `job_state(d)`, with what `job.json` says. -/
def jobState (info : Data) : Outcome Data :=
  s.rc.bind fun rc =>
    let out := info.assign [("job".toList, .text job), ("state".toList, .text (stateWord m info rc)),
      ("rc".toList, rc.elim .null .int)]
    match (out.get "token".toList).filter Json.truthy with
    | none => .ok out
    | some token =>
      let url := statusUrl m job (m.str token)
      (m.renderSvg url).bind fun svg =>
        .ok ((out.set "status_url".toList (.text url)).set "qr_svg".toList (svg.elim .null .text))

/-- The last `LOG_TAIL_LINES` lines of the log. -/
def logTail : Text :=
  let lines := splitlines (s.log.getD [])
  "\n".toList.intercalate (lines.drop (lines.length - 400))

/-- `lab_status(job)`. -/
def labStatus (info : Data) : Outcome Data :=
  (jobState m job s info).bind fun out => .ok (out.set "log".toList (.text (logTail s)))

/-- Every character is ASCII. -/
def isAscii (t : Text) : Bool := t.all fun c => c.toNat < 128

/-- `hmac.compare_digest(a, b)`. -/
def compareDigest (a : Text) : Json → Outcome Bool
  | .text b => if isAscii a && isAscii b then .ok (a = b) else .crash (m.notComparable (.text b))
  | v => .crash (m.notComparable v)

/-- `str(meta.get("token", ""))`. -/
def shownToken (entries : List (Text × Json)) : Text :=
  m.str ((dictGet entries "token".toList).getD (.text []))

/-- `pub_status(job, token)`. -/
def pubStatus (token : Json) : Outcome Data :=
  if safeName job then
    match s.jobJson with
    | none => .error wrongLink
    | some r => r.bind fun v =>
      if token.truthy then
        match v with
        | .mapping entries => (compareDigest m (shownToken m entries) token).bind fun same =>
          if same then
            (labStatus m job s (Obj.empty.assign entries)).bind fun out =>
              .ok (((out.erase "token".toList).erase "status_url".toList).erase "qr_svg".toList)
          else .error wrongLink
        | v => .crash (m.noAttribute v)
      else .error wrongLink
  else .error ("invalid job name ".toList ++ m.repr job)

/-- `req.get("token", "")`. -/
def tokenOf (req : Data) : Json := (req.get "token".toList).getD (.text [])

/-- `run(["pub-status", job])`. -/
def run (stdin : Option (Outcome Json)) : Outcome Data :=
  (readStdin stdin).bind fun req => pubStatus m job s (tokenOf req)

/-- What is printed, the exit status, and what Python writes of an exception. -/
structure Output where
  printed : Option Data
  status : Nat
  trace : Option Text

/-- `main()`, once the command is run. -/
def mainOutput : Outcome Data → Output
  | .ok d => ⟨some d, 0, none⟩
  | .error message => ⟨some (Obj.empty.set "error".toList (.text message)), 1, none⟩
  | .crash trace => ⟨none, 1, some trace⟩

end Command

/-! ## What is asked of it -/

/-- The token is the job's own. -/
def Own (token : Json) (s : JobFiles) : Prop :=
  ∃ entries t, s.jobJson = some (.ok (.mapping entries)) ∧
    dictGet entries "token".toList = some (.text t) ∧ token = .text t

/-- **The job is hidden from the token**: its `job.json`, if there is one, is parsed, and the token is
empty, or it can be compared with another one that is there. -/
def Hidden (m : Machine) (token : Json) (s : JobFiles) : Prop :=
  ∀ r, s.jobJson = some r → ∃ v, r = .ok v ∧ (token.truthy = false ∨
    ∃ entries t, v = .mapping entries ∧ token = .text t ∧ isAscii t = true ∧
      isAscii (shownToken m entries) = true ∧ shownToken m entries ≠ t)

/-- A text is somewhere in an answer. -/
def Mentions (t : Text) (out : Data) : Prop :=
  ∃ k v, out.get k = some v ∧ (t <:+: k ∨ ∃ x ∈ v.texts, t <:+: x)

/-- The keys that the answer does not take from `job.json`. -/
def replacedKeys : List Text :=
  ["job", "state", "rc", "log", "token", "status_url", "qr_svg"].map String.toList

/-- **A text is in what the answer is made of**: its words, the id of the job, the end of the log, or the
rest of `job.json`. -/
def InParts (m : Machine) (job : Text) (s : JobFiles) (info : Data) (t : Text) : Prop :=
  (∃ x ∈ ["job", "state", "rc", "log"].map String.toList ++ [job, logTail s], t <:+: x) ∨
    (∃ rc, s.rc = .ok rc ∧ t <:+: stateWord m info rc) ∨
    ∃ k v, info.get k = some v ∧ k ∉ replacedKeys ∧ (t <:+: k ∨ ∃ x ∈ v.texts, t <:+: x)

/-! ## The refusal -/

section Refusal

variable {m : Machine} {job : Text} {s : JobFiles} {token : Json}

theorem labStatus_ne (info : Data) : labStatus m job s info ≠ .error wrongLink := by
  intro h
  rcases Outcome.bind_eq_error.mp h with h | ⟨out, _, h⟩
  · rcases Outcome.bind_eq_error.mp h with h | ⟨rc, _, h⟩
    · exact s.rc_ne h
    · dsimp only at h
      split at h
      · cases h
      · rcases Outcome.bind_eq_error.mp h with h | ⟨svg, _, h⟩
        · exact m.renderSvg_ne _ h
        · cases h
  · cases h

theorem compareDigest_ne_error (a message : Text) (v : Json) : compareDigest m a v ≠ .error message := by
  intro h
  unfold compareDigest at h
  split at h
  · split at h <;> cases h
  · cases h

theorem compareDigest_eq_ok {a : Text} {v : Json} {b : Bool} :
    compareDigest m a v = .ok b ↔
      ∃ t, v = .text t ∧ isAscii a = true ∧ isAscii t = true ∧ b = decide (a = t) := by
  unfold compareDigest
  split
  · rename_i t
    split
    · rename_i hascii
      rw [Bool.and_eq_true] at hascii
      constructor
      · intro h
        cases h
        exact ⟨t, rfl, hascii.1, hascii.2, rfl⟩
      · rintro ⟨_, ht, _, _, rfl⟩
        cases ht
        rfl
    · rename_i hascii
      constructor
      · intro h
        cases h
      · rintro ⟨_, ht, ha, hb, _⟩
        cases ht
        rw [ha, hb] at hascii
        exact absurd rfl hascii
  · rename_i hv
    constructor
    · intro h
      cases h
    · rintro ⟨t, rfl, _⟩
      exact absurd rfl (hv t)

/-- What follows the comparison of the tokens. -/
theorem compared_eq_wrongLink_iff {entries : List (Text × Json)} :
    ((compareDigest m (shownToken m entries) token).bind fun same =>
        if same then
          (labStatus m job s (Obj.empty.assign entries)).bind fun out =>
            .ok (((out.erase "token".toList).erase "status_url".toList).erase "qr_svg".toList)
        else .error wrongLink) = .error wrongLink ↔
      ∃ t, token = .text t ∧ isAscii t = true ∧ isAscii (shownToken m entries) = true ∧
        shownToken m entries ≠ t := by
  rw [Outcome.bind_eq_error]
  constructor
  · rintro (h | ⟨same, hsame, h⟩)
    · exact absurd h (compareDigest_ne_error _ _ _)
    · obtain ⟨t, ht, ha, hb, rfl⟩ := compareDigest_eq_ok.mp hsame
      refine ⟨t, ht, hb, ha, fun heq => ?_⟩
      rw [if_pos (decide_eq_true heq)] at h
      rcases Outcome.bind_eq_error.mp h with h | ⟨out, _, h⟩
      · exact labStatus_ne _ h
      · cases h
  · rintro ⟨t, ht, hb, ha, hne⟩
    refine Or.inr ⟨_, compareDigest_eq_ok.mpr ⟨t, ht, ha, hb, rfl⟩, ?_⟩
    rw [if_neg (by rwa [decide_eq_true_eq])]

/-- **A token is refused as for a missing job** iff the job is hidden from it. -/
theorem pubStatus_eq_wrongLink_iff (hsafe : safeName job = true) :
    pubStatus m job s token = .error wrongLink ↔ Hidden m token s := by
  unfold pubStatus Hidden
  rw [if_pos hsafe]
  cases hj : s.jobJson with
  | none => exact ⟨fun _ _ h => (by cases h), fun _ => rfl⟩
  | some r =>
    have hone (P : Outcome Json → Prop) : (∀ r', some r = some r' → P r') ↔ P r :=
      ⟨fun h => h r rfl, fun h r' hr => Option.some.inj hr ▸ h⟩
    rw [hone]
    dsimp only
    rw [Outcome.bind_eq_error]
    have hread : r ≠ .error wrongLink := fun hr => s.jobJson_ne (hr ▸ hj)
    rw [or_iff_right hread]
    refine exists_congr fun v => and_congr_right fun _ => ?_
    cases ht : token.truthy with
    | false => exact ⟨fun _ => Or.inl rfl, fun _ => rfl⟩
    | true =>
      rw [if_pos rfl, or_iff_right Bool.noConfusion]
      cases v with
      | mapping entries =>
        dsimp only
        rw [compared_eq_wrongLink_iff]
        constructor
        · rintro ⟨t, h⟩
          exact ⟨entries, t, rfl, h⟩
        · rintro ⟨_, t, he, h⟩
          cases he
          exact ⟨t, h⟩
      | _ =>
        constructor
        · intro h
          cases h
        · rintro ⟨_, _, he, _⟩
          cases he

end Refusal

/-! ## The answer -/

section Answer

variable {m : Machine} {job : Text} {s : JobFiles} {entries : List (Text × Json)} {t : Text} {out : Data}

/-- What is looked up in an answer. -/
def answer (m : Machine) (job : Text) (s : JobFiles) (info : Data) (rc : Option Int) (k : Text) : Option Json :=
  if k = "token".toList ∨ k = "status_url".toList ∨ k = "qr_svg".toList then none
  else if k = "log".toList then some (.text (logTail s))
  else if k = "rc".toList then some (rc.elim .null .int)
  else if k = "state".toList then some (.text (stateWord m info rc))
  else if k = "job".toList then some (.text job)
  else info.get k

/-- The answer of `job_state`, apart from the link. -/
theorem get_of_jobState {info out : Data} (h : jobState m job s info = .ok out) : ∃ rc, s.rc = .ok rc ∧
    ∀ k, k ≠ "status_url".toList → k ≠ "qr_svg".toList → out.get k =
      if k = "rc".toList then some (rc.elim .null .int)
      else if k = "state".toList then some (.text (stateWord m info rc))
      else if k = "job".toList then some (.text job) else info.get k := by
  obtain ⟨rc, hrc, h⟩ := Outcome.bind_eq_ok.mp h
  refine ⟨rc, hrc, fun k h₁ h₂ => ?_⟩
  have hassign (a b c : Text × Json) (k : Text) : (info.assign [a, b, c]).get k =
      if k = c.1 then some c.2 else if k = b.1 then some b.2 else if k = a.1 then some a.2 else info.get k := by
    change (((info.set a.1 a.2).set b.1 b.2).set c.1 c.2).get k = _
    rw [Obj.get_set, Obj.get_set, Obj.get_set]
  rw [← hassign ("job".toList, .text job) ("state".toList, .text (stateWord m info rc))
    ("rc".toList, rc.elim .null .int)]
  dsimp only at h
  split at h
  · rw [Outcome.ok.inj h]
  · obtain ⟨svg, _, h⟩ := Outcome.bind_eq_ok.mp h
    rw [← Outcome.ok.inj h, Obj.get_set, if_neg h₂, Obj.get_set, if_neg h₁]

/-- The answer for the right token, key by key. -/
theorem get_of_pubStatus (hj : s.jobJson = some (.ok (.mapping entries))) (h : pubStatus m job s (.text t) = .ok out) :
    ∃ rc, s.rc = .ok rc ∧ ∀ k, out.get k = answer m job s (Obj.empty.assign entries) rc k := by
  unfold pubStatus at h
  split at h
  · rw [hj] at h
    obtain ⟨v, hv, h⟩ := Outcome.bind_eq_ok.mp h
    obtain rfl := Outcome.ok.inj hv
    dsimp only at h
    split at h
    · obtain ⟨same, _, h⟩ := Outcome.bind_eq_ok.mp h
      split at h
      · obtain ⟨out₁, h₁, h⟩ := Outcome.bind_eq_ok.mp h
        obtain ⟨out₂, h₂, h₁⟩ := Outcome.bind_eq_ok.mp h₁
        obtain ⟨rc, hrc, hget⟩ := get_of_jobState h₂
        refine ⟨rc, hrc, fun k => ?_⟩
        unfold answer
        rw [← Outcome.ok.inj h, ← Outcome.ok.inj h₁, Obj.get_erase, Obj.get_erase, Obj.get_erase, Obj.get_set]
        by_cases h₁ : k = "qr_svg".toList
        · rw [if_pos h₁, if_pos (Or.inr (Or.inr h₁))]
        · rw [if_neg h₁]
          by_cases h₂ : k = "status_url".toList
          · rw [if_pos h₂, if_pos (Or.inr (Or.inl h₂))]
          · rw [if_neg h₂]
            by_cases h₃ : k = "token".toList
            · rw [if_pos h₃, if_pos (Or.inl h₃)]
            · rw [if_neg h₃, if_neg (not_or.mpr ⟨h₃, not_or.mpr ⟨h₂, h₁⟩⟩), hget k h₂ h₁]
      · cases h
    · cases h
  · cases h

theorem texts_text {t x : Text} : x ∈ (Json.text t).texts ↔ x = t := by
  rw [Json.texts, List.mem_singleton]

theorem not_mem_replacedKeys {k : Text} : k ∉ replacedKeys ↔
    k ≠ "job".toList ∧ k ≠ "state".toList ∧ k ≠ "rc".toList ∧ k ≠ "log".toList ∧ k ≠ "token".toList ∧
      k ≠ "status_url".toList ∧ k ≠ "qr_svg".toList := by
  simp only [replacedKeys, List.map_cons, List.map_nil, List.mem_cons, List.not_mem_nil, or_false, not_or,
    ne_eq]

/-- **An answer contains the token** iff one of its parts does. -/
theorem mentions_iff (hj : s.jobJson = some (.ok (.mapping entries)))
    (h : pubStatus m job s (.text t) = .ok out) :
    Mentions t out ↔ InParts m job s (Obj.empty.assign entries) t := by
  obtain ⟨rc, hrc, hget⟩ := get_of_pubStatus hj h
  have hword {k x : Text} {v : Text} (hk : out.get k = some (.text v)) (hx : x = k ∨ x = v) (hin : t <:+: x) :
      Mentions t out := by
    refine ⟨k, .text v, hk, ?_⟩
    rcases hx with rfl | rfl
    · exact Or.inl hin
    · exact Or.inr ⟨x, texts_text.mpr rfl, hin⟩
  have hlog : out.get "log".toList = some (.text (logTail s)) := (hget _).trans rfl
  have hjob : out.get "job".toList = some (.text job) := (hget _).trans rfl
  have hstate : out.get "state".toList = some (.text (stateWord m (Obj.empty.assign entries) rc)) :=
    (hget _).trans rfl
  have hrcGet : out.get "rc".toList = some (rc.elim .null .int) := (hget _).trans rfl
  constructor
  · rintro ⟨k, v, hk, hin⟩
    rw [hget] at hk
    unfold answer at hk
    split at hk
    · cases hk
    · rename_i h₁
      split at hk
      · rename_i hlog
        cases hk
        refine Or.inl ?_
        rcases hin with hin | ⟨x, hx, hin⟩
        · exact ⟨k, List.mem_append_left _ (by rw [hlog]; decide), hin⟩
        · rw [texts_text] at hx
          exact ⟨x, by rw [hx]; simp, hin⟩
      · rename_i h₂
        split at hk
        · rename_i hrc
          cases hk
          rcases hin with hin | ⟨x, hx, _⟩
          · exact Or.inl ⟨k, List.mem_append_left _ (by rw [hrc]; decide), hin⟩
          · cases rc <;> cases hx
        · rename_i h₃
          split at hk
          · rename_i hstate
            cases hk
            rcases hin with hin | ⟨x, hx, hin⟩
            · exact Or.inl ⟨k, List.mem_append_left _ (by rw [hstate]; decide), hin⟩
            · rw [texts_text] at hx
              exact Or.inr (Or.inl ⟨rc, hrc, hx ▸ hin⟩)
          · rename_i h₄
            split at hk
            · rename_i hjob
              cases hk
              refine Or.inl ?_
              rcases hin with hin | ⟨x, hx, hin⟩
              · exact ⟨k, List.mem_append_left _ (by rw [hjob]; decide), hin⟩
              · rw [texts_text] at hx
                exact ⟨x, by rw [hx]; simp, hin⟩
            · rename_i h₅
              refine Or.inr (Or.inr ⟨k, v, hk, ?_, hin⟩)
              rw [not_or, not_or] at h₁
              exact not_mem_replacedKeys.mpr ⟨h₅, h₄, h₃, h₂, h₁⟩
  · rintro (⟨x, hx, hin⟩ | ⟨rc', hrc', hin⟩ | ⟨k, v, hk, hrep, hin⟩)
    · simp only [List.map_cons, List.map_nil, List.cons_append, List.nil_append, List.mem_cons,
        List.not_mem_nil, or_false] at hx
      rcases hx with hx | hx | hx | hx | hx | hx
      · exact hword hjob (Or.inl hx) hin
      · exact hword hstate (Or.inl hx) hin
      · exact ⟨_, _, hrcGet, Or.inl (hx ▸ hin)⟩
      · exact hword hlog (Or.inl hx) hin
      · exact hword hjob (Or.inr hx) hin
      · exact hword hlog (Or.inr hx) hin
    · rw [hrc] at hrc'
      cases hrc'
      exact hword hstate (Or.inr rfl) hin
    · refine ⟨k, v, ?_, hin⟩
      obtain ⟨h₁, h₂, h₃, h₄, h₅, h₆, h₇⟩ := not_mem_replacedKeys.mp hrep
      rw [hget]
      unfold answer
      rw [if_neg (not_or.mpr ⟨h₅, not_or.mpr ⟨h₆, h₇⟩⟩), if_neg h₄, if_neg h₃, if_neg h₂, if_neg h₁, hk]

end Answer

/-! ## The command as a whole -/

/-- The token of a request that is read. -/
def AskedWith (stdin : Option (Outcome Json)) (token : Json) : Prop :=
  ∃ req, readStdin stdin = .ok req ∧ tokenOf req = token

theorem mainOutput_eq_wrongLink {x : Outcome Data} (h : mainOutput x = mainOutput (.error wrongLink)) :
    x = .error wrongLink := by
  have hprinted := congrArg Output.printed h
  cases x with
  | ok d => exact absurd (congrArg Output.status h) Nat.zero_ne_one
  | crash trace => cases hprinted
  | error message =>
    have hget := congrArg (fun o => o.get "error".toList) (Option.some.inj hprinted)
    rw [Obj.get_set, Obj.get_set, if_pos rfl, if_pos rfl] at hget
    cases hget
    rfl

theorem run_eq {m : Machine} {job : Text} {s : JobFiles} {stdin : Option (Outcome Json)} {token : Json}
    (h : AskedWith stdin token) : run m job s stdin = pubStatus m job s token := by
  obtain ⟨req, hreq, rfl⟩ := h
  unfold run
  rw [hreq]
  rfl

theorem askedWith_unique {stdin : Option (Outcome Json)} {token token' : Json} (h : AskedWith stdin token)
    (h' : AskedWith stdin token') : token' = token := by
  obtain ⟨req, hreq, rfl⟩ := h
  obtain ⟨req', hreq', rfl⟩ := h'
  rw [Outcome.ok.inj (hreq.symm.trans hreq')]

theorem pubStatus_of_missing {m : Machine} {job : Text} {s : JobFiles} (hsafe : safeName job = true)
    (h : s.jobJson = none) (token : Json) : pubStatus m job s token = .error wrongLink := by
  refine (pubStatus_eq_wrongLink_iff hsafe).mpr fun r hr => ?_
  rw [h] at hr
  cases hr

theorem not_own_of_missing {s : JobFiles} (h : s.jobJson = none) (token : Json) : ¬ Own token s := by
  rintro ⟨_, _, hj, _⟩
  rw [h] at hj
  cases hj

/-- Without the token nothing tells two states apart in which the job is hidden. -/
theorem output_eq {m : Machine} {job : Text} {stdin : Option (Outcome Json)} {s s' : JobFiles}
    (h : ∀ token, AskedWith stdin token → safeName job = true → Hidden m token s ∧ Hidden m token s') :
    mainOutput (run m job s stdin) = mainOutput (run m job s' stdin) := by
  cases hreq : readStdin stdin with
  | ok req =>
    have hasked : AskedWith stdin (tokenOf req) := ⟨req, hreq, rfl⟩
    rw [run_eq hasked, run_eq hasked]
    by_cases hsafe : safeName job = true
    · obtain ⟨h₁, h₂⟩ := h _ hasked hsafe
      rw [(pubStatus_eq_wrongLink_iff hsafe).mpr h₁, (pubStatus_eq_wrongLink_iff hsafe).mpr h₂]
    · unfold pubStatus
      rw [if_neg hsafe, if_neg hsafe]
  | error message =>
    unfold run
    rw [hreq, Outcome.error_bind, Outcome.error_bind]
  | crash trace =>
    unfold run
    rw [hreq, Outcome.crash_bind, Outcome.crash_bind]

/-- A state that is not told apart from a missing job hides it. -/
theorem hidden_of_output_eq {m : Machine} {job : Text} {stdin : Option (Outcome Json)} {s s₀ : JobFiles}
    {token : Json} (hnone : s₀.jobJson = none) (hasked : AskedWith stdin token) (hsafe : safeName job = true)
    (h : mainOutput (run m job s stdin) = mainOutput (run m job s₀ stdin)) : Hidden m token s := by
  rw [run_eq hasked, run_eq hasked, pubStatus_of_missing hsafe hnone] at h
  exact (pubStatus_eq_wrongLink_iff hsafe).mp (mainOutput_eq_wrongLink h)

/-- **What the command gives away.** Without the token nothing tells the states of a job's directory
apart, a missing one among them, iff the job is hidden in each of them, or the request is refused before;
and the answer to the right token contains it iff one of its parts does. -/
theorem pubStatus_leaks_iff (m : Machine) (job : Text) (stdin : Option (Outcome Json)) {states : Set JobFiles}
    (h : ∃ s ∈ states, s.jobJson = none) :
    ((∀ s ∈ states, ∀ s' ∈ states, (∀ token, AskedWith stdin token → ¬ Own token s ∧ ¬ Own token s') →
        mainOutput (run m job s stdin) = mainOutput (run m job s' stdin)) ↔
      ∀ token, AskedWith stdin token → safeName job = true →
        ∀ s ∈ states, ¬ Own token s → Hidden m token s) ∧
    ∀ s ∈ states, ∀ entries t out, s.jobJson = some (.ok (.mapping entries)) →
      dictGet entries "token".toList = some (.text t) → AskedWith stdin (.text t) →
      run m job s stdin = .ok out → (Mentions t out ↔ InParts m job s (Obj.empty.assign entries) t) := by
  obtain ⟨s₀, hs₀, hnone⟩ := h
  refine ⟨⟨fun h token hasked hsafe s hs hown => ?_, fun h s hs s' hs' hown => ?_⟩, ?_⟩
  · refine hidden_of_output_eq hnone hasked hsafe (h s hs s₀ hs₀ fun token' h' => ?_)
    rw [askedWith_unique hasked h']
    exact ⟨hown, not_own_of_missing hnone token⟩
  · refine output_eq fun token hasked hsafe => ?_
    obtain ⟨h₁, h₂⟩ := hown token hasked
    exact ⟨h token hasked hsafe s hs h₁, h token hasked hsafe s' hs' h₂⟩
  · intro s _ entries t out hj _ hasked hout
    rw [run_eq hasked] at hout
    exact mentions_iff hj hout

/-- A machine without `qrencode`. -/
def plainMachine : Machine where
  procExists _ := false
  fqdn := "node".toList
  renderSvg _ := .ok none
  renderSvg_ne _ h := by cases h
  repr t := '\'' :: t ++ ['\'']
  shown _ := []
  noAttribute _ := "AttributeError".toList
  notComparable _ := "TypeError".toList

/-- A directory that is not there. -/
def missingJob : JobFiles where
  jobJson := none
  rc := .ok none
  log := none
  jobJson_ne h := by cases h
  rc_ne h := by cases h

/-- The link that `setup_lab.py` prints. -/
def linkLine : Text := statusUrl plainMachine "lab-1".toList "s3cret".toList

/-- A job that is done, with the link in its log. -/
def doneJob : JobFiles where
  jobJson := some (.ok (.mapping [("lab".toList, .text "lab.json".toList), ("token".toList, .text "s3cret".toList)]))
  rc := .ok (some 0)
  log := some (linkLine ++ ['\n'])
  jobJson_ne h := by cases h
  rc_ne h := by cases h

/-- The request with a token. -/
def requestWith (token : Json) : Option (Outcome Json) := some (.ok (.mapping [("token".toList, token)]))

theorem askedWith_requestWith_iff {token token' : Json} : AskedWith (requestWith token) token' ↔ token' = token := by
  constructor
  · rintro ⟨req, hreq, rfl⟩
    cases hreq
    rfl
  · rintro rfl
    exact ⟨_, rfl, rfl⟩

theorem own_doneJob {t : Text} (h : Own (.text t) doneJob) : t = "s3cret".toList := by
  obtain ⟨entries, t', hj, ht, htoken⟩ := h
  cases hj
  have hget : dictGet [("lab".toList, Json.text "lab.json".toList), ("token".toList, .text "s3cret".toList)]
      "token".toList = some (.text "s3cret".toList) := List.lookup_cons_self
  rw [hget] at ht
  rw [Json.text.inj htoken, Json.text.inj (Option.some.inj ht)]

theorem pubStatus_leaks_iff_guess :
    mainOutput (run plainMachine "lab-1".toList missingJob (requestWith (.text "guess".toList))) =
      mainOutput (run plainMachine "lab-1".toList doneJob (requestWith (.text "guess".toList))) := by
  have hown : ¬ Own (.text "guess".toList) doneJob := fun h => absurd (own_doneJob h) (by decide)
  refine (@pubStatus_leaks_iff plainMachine "lab-1".toList (requestWith (.text "guess".toList))
    {missingJob, doneJob} ⟨missingJob, Or.inl rfl, rfl⟩).1.mpr (fun token hasked _ s hs _ => ?_) missingJob (Or.inl rfl) doneJob (Or.inr rfl) fun token hasked => ?_
  · rw [askedWith_requestWith_iff.mp hasked]
    rcases hs with rfl | rfl
    · intro r hr
      cases hr
    · intro r hr
      cases hr
      exact ⟨_, rfl, Or.inr ⟨_, _, rfl, rfl, by decide, by decide, by decide⟩⟩
  · rw [askedWith_requestWith_iff.mp hasked]
    exact ⟨not_own_of_missing rfl _, hown⟩

theorem logTail_doneJob : logTail doneJob = linkLine := by
  have hlines : splitlines (linkLine ++ ['\n']) = [linkLine] :=
    splitlines_append_newline (by decide) []
  unfold logTail
  change "\n".toList.intercalate ((splitlines (linkLine ++ ['\n'])).drop _) = linkLine
  rw [hlines]
  exact List.append_nil _

/-- A token that cannot be compared tells a job from a missing one, and the answer for the right token
has it in the log. -/
theorem token_leaks : ¬ ((∀ (token : Json) (s s' : JobFiles), ¬ Own token s → ¬ Own token s' →
      mainOutput (run plainMachine "lab-1".toList s (requestWith token)) =
        mainOutput (run plainMachine "lab-1".toList s' (requestWith token))) ∧
    ∀ (t : Text) (s : JobFiles) (out : Data), Own (.text t) s →
      run plainMachine "lab-1".toList s (requestWith (.text t)) = .ok out → ¬ Mentions t out) ∧
    mainOutput (run plainMachine "lab-1".toList missingJob (requestWith (.text "é".toList))) ≠
      mainOutput (run plainMachine "lab-1".toList doneJob (requestWith (.text "é".toList))) ∧
    ∃ out, run plainMachine "lab-1".toList doneJob (requestWith (.text "s3cret".toList)) = .ok out ∧
      Mentions "s3cret".toList out := by
  have hdiffer : mainOutput (run plainMachine "lab-1".toList missingJob (requestWith (.text "é".toList))) ≠
      mainOutput (run plainMachine "lab-1".toList doneJob (requestWith (.text "é".toList))) := by
    intro h
    have hsafe : safeName "lab-1".toList = true := by decide
    have hhidden := hidden_of_output_eq rfl (askedWith_requestWith_iff.mpr rfl) hsafe h.symm
    obtain ⟨v, _, hfalsy | ⟨_, t, _, ht, hascii, _⟩⟩ := hhidden _ rfl
    · exact absurd hfalsy (by decide)
    · rw [← Json.text.inj ht] at hascii
      exact absurd hascii (by decide)
  refine ⟨fun h => hdiffer (h.1 _ _ _ (not_own_of_missing rfl _) fun hown => ?_), hdiffer, ?_⟩
  · exact absurd (own_doneJob hown) (by decide)
  · have hasked : AskedWith (requestWith (.text "s3cret".toList)) (.text "s3cret".toList) :=
      askedWith_requestWith_iff.mpr rfl
    obtain ⟨out, hout⟩ : ∃ out, pubStatus plainMachine "lab-1".toList doneJob (.text "s3cret".toList) = .ok out :=
      ⟨_, rfl⟩
    rw [run_eq hasked]
    refine ⟨out, hout, (mentions_iff rfl hout).mpr (Or.inl ⟨logTail doneJob, ?_, ?_⟩)⟩
    · exact List.mem_append_right _ (List.mem_cons_of_mem _ (List.mem_singleton.mpr rfl))
    rw [logTail_doneJob]
    exact (List.suffix_append _ _).isInfix

end LabInABox.Jobs.Status
