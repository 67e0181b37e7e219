import Mathlib.Data.List.Dedup
import LabInABox.Text.Lines

/-!
# The shape of a zone file

Model of `libs/dns_zone.py`: the names of a lab's zone files (`forwardFile`, `reverseFile`,
`reverseZone`) and `records`, the records of a zone file as a set of whitespace-collapsed lines.

* `recordOf` is the body of the loop of `records()`: the record of one line, `none` for a line it
  skips. `records` collects them as a duplicate-free list; only its membership matters.
* `IsRecord` says which texts are records: their own fields joined, with no comment, that the loop
  keeps. `isRecord_of_recordOf` and `recordOf_of_isRecord` say a record is a line whose record is
  itself, so writing one to a file and reading it back gives it again.

Results:
* `mem_records_append`: what appending records to a zone file does to its record set, when the open
  line of the file is blank.
* `recordOf_append_iff`: a record appended to an open line that is not blank is lost.
-/

namespace LabInABox.Dns

open Text

/-- `forward_file(mydomain)`. -/
def forwardFile (mydomain : Text) : Text := mydomain ++ ".lan".toList

/-- `reverse_file(mynet_reverse)`. -/
def reverseFile (mynetReverse : Text) : Text := mynetReverse ++ ".db".toList

/-- `reverse_zone(mynet_reverse)`. -/
def reverseZone (mynetReverse : Text) : Text := mynetReverse ++ ".in-addr.arpa".toList

theorem forwardFile_ne_reverseFile (d r : Text) : forwardFile d ≠ reverseFile r := by
  intro h
  have := congrArg List.getLast? h
  simp [forwardFile, reverseFile] at this

/-! ## Records -/

/-- The first words of the lines that belong to a server rather than to the lab. -/
def headerWords : List Text :=
  ["IN".toList, "SOA".toList, "NS".toList, "MX".toList, "ns".toList]

/-- `line.split(";")[0]`: the line before its comment. -/
def bare (line : Text) : Text := line.takeWhile (· != ';')

/-- One pass of the loop of `records(text)`: the record of a line, if it has one. -/
def recordOf (line : Text) : Option Text :=
  let line := strip (bare line)
  if line = [] ∨ line.head? = some '$' ∨ line.head? = some '@' ∨ line.head? = some ')' then none
  else
    let fs := fields line
    if fs.headD [] ∈ headerWords then none
    -- a bare number continues a multi-line SOA; a PTR record has the octet and more fields
    else if isdigit (fs.headD []) = true ∧ fs.length < 3 then none
    else some (join fs)

/-- `records(text)`. -/
def records (text : Text) : List Text := ((splitlines text).filterMap recordOf).dedup

theorem mem_records {text r : Text} :
    r ∈ records text ↔ ∃ l ∈ splitlines text, recordOf l = some r := by
  rw [records, List.mem_dedup, List.mem_filterMap]

/-- The fields of a line the loop keeps. -/
def keeps : List Text → Bool
  | [] => false
  | f :: fs =>
    if f.head? = some '$' ∨ f.head? = some '@' ∨ f.head? = some ')' then false
    else if f ∈ headerWords then false
    else if isdigit f = true ∧ (f :: fs).length < 3 then false
    else true

/-- A stripped text begins as its first field does. -/
theorem head?_strip (t : Text) : (strip t).head? = (fields t).head?.bind List.head? := by
  rw [← fields_strip t]
  rcases hs : strip t with _ | ⟨c, cs⟩
  · rfl
  · have hc : isSpace c = false := by
      have hne : strip t ≠ [] := by rw [hs]; exact List.cons_ne_nil _ _
      have hpre : strip t <+: t.dropWhile isSpace := List.rdropWhile_prefix _ _
      rw [hs] at hpre
      obtain ⟨u, hu⟩ := hpre
      have := List.head?_dropWhile_not isSpace t
      rw [← hu] at this
      simpa using this
    rw [fields, fieldsBy]
    simp only [hc, Bool.false_eq_true, if_false]
    split
    · cases fieldsBy isSpace cs <;> rfl
    · rfl

/-- **The loop body is a function of the fields before the comment.** -/
theorem recordOf_eq (line : Text) :
    recordOf line =
      if keeps (fields (bare line)) = true then some (join (fields (bare line))) else none := by
  have hnil : strip (bare line) = [] ↔ fields (bare line) = [] := by
    rw [strip_eq_nil_iff, fields, fieldsBy_eq_nil_iff]
  have hhead := head?_strip (bare line)
  unfold recordOf
  simp only [fields_strip, hnil, hhead]
  cases fields (bare line) with
  | nil => simp [keeps]
  | cons f fs =>
    by_cases hb : f.head? = some '$' ∨ f.head? = some '@' ∨ f.head? = some ')'
    · simp [keeps, hb]
    · by_cases hw : f ∈ headerWords
      · simp [keeps, hb, hw]
      · by_cases hd : isdigit f = true
        · by_cases hl : fs.length + 1 < 3
          · simp [keeps, hb, hw, hd, hl]
          · simp [keeps, hb, hw, hd, hl]
        · simp [keeps, hb, hw, hd]

/-- A record: its own fields joined, with no comment in it, that the loop keeps. -/
structure IsRecord (r : Text) : Prop where
  eq_join : r = join (fields r)
  keeps : keeps (fields r) = true
  no_comment : ';' ∉ r

theorem bare_eq_self {t : Text} (h : ';' ∉ t) : bare t = t := by
  rw [bare, List.takeWhile_eq_self_iff]
  intro c hc
  have hne : c ≠ ';' := by
    rintro rfl
    exact h hc
  simpa using hne

theorem isRecord_of_recordOf {l r : Text} (h : recordOf l = some r) : IsRecord r := by
  rw [recordOf_eq] at h
  split at h
  · rename_i hk
    obtain rfl := Option.some.inj h
    have hf : ∀ f ∈ fields (bare l), IsField isSpace f := fun f hm => isField_of_mem_fieldsBy hm
    refine ⟨by rw [fields_join hf], by rwa [fields_join hf], fun hm => ?_⟩
    rcases mem_join hm with h | ⟨f, hm, hc⟩
    · exact absurd h (by decide)
    · have hflat : ';' ∈ (fields (bare l)).flatten := List.mem_flatten.mpr ⟨f, hm, hc⟩
      rw [fields, fieldsBy_flatten] at hflat
      have := List.mem_takeWhile_imp (List.mem_filter.mp hflat).1
      simp at this
  · exact absurd h (by simp)

/-- **A record is the record of its own line.** -/
theorem recordOf_of_isRecord {r : Text} (h : IsRecord r) : recordOf r = some r := by
  rw [recordOf_eq, bare_eq_self h.no_comment, if_pos h.keeps, ← h.eq_join]

theorem isRecord_of_mem_records {text r : Text} (h : r ∈ records text) : IsRecord r := by
  obtain ⟨_, _, hl⟩ := mem_records.mp h
  exact isRecord_of_recordOf hl

namespace IsRecord

variable {r : Text}

theorem fields_ne_nil (h : IsRecord r) : fields r ≠ [] := fun e => by
  have := h.keeps
  rw [e] at this
  exact absurd this (by simp [Dns.keeps])

theorem isEntry (h : IsRecord r) : IsEntry r := by
  rw [h.eq_join]
  exact isEntry_join h.fields_ne_nil fun f hm => isField_of_mem_fieldsBy hm

end IsRecord

/-! ## Appending records to a file -/

/-- A text of blanks only. -/
def Blank (t : Text) : Prop := ∀ c ∈ t, isSpace c = true

instance (t : Text) : Decidable (Blank t) :=
  decidable_of_iff (t.all isSpace = true) (by simp [Blank])

theorem recordOf_of_blank {b : Text} (hb : Blank b) : recordOf b = none := by
  have : fields (bare b) = [] := fieldsBy_eq_nil_of_blank fun c hc =>
    hb c (List.takeWhile_subset _ hc)
  rw [recordOf_eq, this]
  rfl

theorem recordOf_blank_append {b r : Text} (hb : Blank b) (hr : IsRecord r) :
    recordOf (b ++ r) = some r := by
  have hno : ';' ∉ b ++ r := fun hm => by
    rcases List.mem_append.mp hm with hm | hm
    · exact absurd (hb _ hm) (by decide)
    · exact hr.no_comment hm
  rw [recordOf_eq, bare_eq_self hno, fields, fieldsBy_blank_append hb]
  exact (if_pos hr.keeps).trans (congrArg some hr.eq_join.symm)

/-- **A record written to an open line** that does not hold it already is read back iff the line is
blank: otherwise the line's own characters, or its comment, change what is read. -/
theorem recordOf_append_iff {l r : Text} (hr : IsRecord r) (hl : recordOf l ≠ some r) :
    recordOf (l ++ r) = some r ↔ Blank l := by
  refine ⟨fun h => ?_, fun h => recordOf_blank_append h hr⟩
  by_cases hc : ';' ∈ l
  · -- the comment swallows the record: the line still reads as `l`
    have hbare : bare (l ++ r) = bare l := by
      obtain ⟨u, v, rfl, hu⟩ := List.eq_append_cons_of_mem hc
      have hpos : ∀ a ∈ u, (a != ';') = true := fun a ha => by
        have hne : a ≠ ';' := by
          rintro rfl
          exact hu ha
        simpa using hne
      unfold bare
      rw [List.append_assoc, List.takeWhile_append_of_pos hpos, List.takeWhile_append_of_pos hpos]
      simp
    rw [recordOf_eq, hbare, ← recordOf_eq] at h
    exact absurd h hl
  · -- no comment: the characters of `l` that are no blanks would have to be gone from the record
    have hno : ';' ∉ l ++ r := fun hm => by
      rcases List.mem_append.mp hm with hm | hm
      · exact hc hm
      · exact hr.no_comment hm
    rw [recordOf_eq, bare_eq_self hno] at h
    split at h
    · have hj : join (fields (l ++ r)) = r := Option.some.inj h
      have hflat := fieldsBy_flatten (p := isSpace) (l ++ r)
      have hfr : fields r = fields (l ++ r) :=
        (congrArg fields hj).symm.trans (fields_join fun f hm => isField_of_mem_fieldsBy hm)
      have hlen := congrArg List.length (fieldsBy_flatten (p := isSpace) r)
      change (fields r).flatten.length = _ at hlen
      rw [hfr] at hlen
      change (fields (l ++ r)).flatten = _ at hflat
      rw [hflat, List.filter_append, List.length_append] at hlen
      have hzero : l.filter (fun c => !isSpace c) = [] := List.eq_nil_of_length_eq_zero (by omega)
      intro c hcl
      simpa using List.filter_eq_nil_iff.mp hzero c hcl
    · exact absurd h (by simp)

theorem mem_records_closed {t : Text} (hb : Blank (openLine t)) {r : Text} :
    r ∈ records t ↔ ∃ l ∈ splitlines (closedPart t), recordOf l = some r := by
  rw [mem_records, splitlines_eq_closed]
  constructor
  · rintro ⟨l, hl, hr⟩
    rcases List.mem_append.mp hl with hl | hl
    · exact ⟨l, hl, hr⟩
    · by_cases he : openLine t = []
      · rw [he] at hl
        exact absurd hl List.not_mem_nil
      · rw [splitlines_of_oneLine he (oneLine_openLine t)] at hl
        rw [List.mem_singleton.mp hl, recordOf_of_blank hb] at hr
        exact absurd hr (by simp)
  · rintro ⟨l, hl, hr⟩
    exact ⟨l, List.mem_append_left _ hl, hr⟩

/-- What appending records, one a line, leaves in the file. -/
theorem splitlines_append_unlines (t : Text) {r : Text} {rs : List Text}
    (h : ∀ x ∈ r :: rs, IsRecord x) :
    splitlines (t ++ unlines (r :: rs)) = splitlines (closedPart t) ++ (openLine t ++ r) :: rs := by
  have hr := (h r List.mem_cons_self).isEntry
  rw [unlines_cons, splitlines_append_line t hr.oneLine hr.ne_nil, splitlines_unlines]
  exact fun x hx => (h x (List.mem_cons_of_mem _ hx)).isEntry.oneLine

/-- **Appending records to a file whose open line is blank** adds exactly these records. -/
theorem mem_records_append {t : Text} (hb : Blank (openLine t)) {rs : List Text}
    (h : ∀ x ∈ rs, IsRecord x) {x : Text} :
    x ∈ records (t ++ unlines rs) ↔ x ∈ records t ∨ x ∈ rs := by
  cases rs with
  | nil => simp
  | cons r rs =>
    have hr := h r List.mem_cons_self
    have hself : ∀ y ∈ rs, recordOf y = some y := fun y hy =>
      recordOf_of_isRecord (h y (List.mem_cons_of_mem _ hy))
    rw [mem_records, splitlines_append_unlines t h, mem_records_closed hb]
    constructor
    · rintro ⟨l, hl, hx⟩
      rcases List.mem_append.mp hl with hl | hl
      · exact Or.inl ⟨l, hl, hx⟩
      · rcases List.mem_cons.mp hl with rfl | hl
        · rw [recordOf_blank_append hb hr] at hx
          exact Or.inr (Option.some.inj hx ▸ List.mem_cons_self)
        · rw [hself l hl] at hx
          exact Or.inr (List.mem_cons_of_mem _ (Option.some.inj hx ▸ hl))
    · rintro (⟨l, hl, hx⟩ | hx)
      · exact ⟨l, List.mem_append_left _ hl, hx⟩
      · rcases List.mem_cons.mp hx with rfl | hx
        · exact ⟨_, List.mem_append_right _ List.mem_cons_self, recordOf_blank_append hb hr⟩
        · exact ⟨x, List.mem_append_right _ (List.mem_cons_of_mem _ hx), hself x hx⟩

/-- The first record appended to a file that lacks it is read back only if the open line is blank. -/
theorem blank_of_mem_records_append {t r : Text} {rs : List Text} (h : ∀ x ∈ r :: rs, IsRecord x)
    (hnot : r ∉ records t) (hrs : r ∉ rs) (hm : r ∈ records (t ++ unlines (r :: rs))) :
    Blank (openLine t) := by
  have hr := h r List.mem_cons_self
  obtain ⟨l, hl, hx⟩ := mem_records.mp hm
  rw [splitlines_append_unlines t h] at hl
  have hno : ∀ y ∈ splitlines t, recordOf y ≠ some r := fun y hy e => hnot (mem_records.mpr ⟨y, hy, e⟩)
  rw [splitlines_eq_closed] at hno
  rcases List.mem_append.mp hl with hl | hl
  · exact absurd hx (hno l (List.mem_append_left _ hl))
  · rcases List.mem_cons.mp hl with rfl | hl
    · refine (recordOf_append_iff hr fun e => ?_).mp hx
      by_cases he : openLine t = []
      · rw [recordOf_of_blank (by rw [he]; exact fun _ hc => absurd hc List.not_mem_nil)] at e
        exact absurd e (by simp)
      · refine hno (openLine t) (List.mem_append_right _ ?_) e
        rw [splitlines_of_oneLine he (oneLine_openLine t)]
        exact List.mem_singleton_self _
    · rw [recordOf_of_isRecord (h l (List.mem_cons_of_mem _ hl))] at hx
      exact absurd (Option.some.inj hx ▸ hl) hrs

end LabInABox.Dns
