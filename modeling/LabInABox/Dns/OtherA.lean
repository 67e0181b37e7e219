import LabInABox.Dns.Names
import LabInABox.Dns.Pattern
import LabInABox.Dns.Service

/-!
# The other addresses of a name

Model of `_other_a_pattern`, `_dns_remove_other_a` and `_remote_dns_remove_other_a`
(`libs/services.py`): the records of a name that `replace` removes, here by a filter with two
expressions of `re` and on a master by a `sed` script with one address inside another.

* `dnsRemoveOtherA` is the filter said by fields. `removeOtherA_eq` says the expressions are that
  filter, for the names and addresses of nodes.
* `PlainA`: the A records of the zone are lines `name IN A ip` with spaces and tabs around the fields.
  The other lines of the zone are any text.

Results:
* `deletesOtherA_iff`: what each reader removes, over its own blanks.
* `otherA_same_iff`: both leave the lines of the zone but the A records of the name that point
  elsewhere, exactly when a line is left, and none of those left holds a character that ends a line
  for `str.splitlines` only. With no line left, this host writes an empty one.
-/

namespace LabInABox.Dns

open Text

/-! ## The expressions -/

/-- `_other_a_pattern(short, keep_ip)`. -/
def otherAPattern (short keepIp : Text) : Text × Text :=
  let name := (pattern short).take ((pattern short).length - "[[:space:]]*$".toList.length)
  (name ++ "[[:space:]]+IN[[:space:]]+A[[:space:]]+".toList,
    "[[:space:]]".toList ++ escapeDots keepIp ++ "[[:space:]]*$".toList)

/-- `_dns_remove_other_a(zone_file, short, keep_ip)`: `none` where `re` refuses an expression. -/
def removeOtherA (short keepIp text : Text) : Option Text :=
  let p := otherAPattern short keepIp
  match Ere.parse .python (translated p.1), Ere.parse .python (translated p.2) with
  | some anyA, some keep =>
    some (dropMatched (fun line => anyA.matchStart line && !keep.search line) text)
  | _, _ => none

/-- `_remote_dns_remove_other_a(server, zone_file, short, keep_ip)`. -/
def remoteRemoveOtherA (short keepIp text : Text) : Text :=
  sedDeletes (DnsService.otherAScript short keepIp) text

section Words

variable {t : Text}

theorem quotable_of_hostChar {c : Char} (h : hostChar c = true) : c ∉ Ere.special ∨ c = '.' := by
  rw [or_iff_not_imp_right]
  intro hdot hm
  have hall : ∀ x ∈ Ere.special, x = '.' ∨ hostChar x = false := by decide
  rcases hall c hm with e | e
  · exact hdot e
  · exact absurd h (by rw [e]; decide)

theorem IsWord.quotable (h : IsWord t) : ∀ c ∈ t, Ere.Quotable c := fun c hc =>
  (quotable_of_hostChar (h.2 c hc)).imp_right Or.inr

theorem IsWord.not_mem {c : Char} (h : IsWord t) (hc : hostChar c = false) : c ∉ t := fun hm => by
  rw [h.2 c hm] at hc
  exact absurd hc (by decide)

theorem IsWord.fields_eq (h : IsWord t) : fields t = [t] := fieldsBy_of_isField h.isField

theorem IsWord.escapeDots_eq (h : IsWord t) : escapeDots t = Ere.quote t := by
  refine List.flatMap_congr fun c hc => ?_
  have hback : c ≠ '\\' := fun e => h.not_mem (by decide) (e ▸ hc)
  by_cases hd : c = '.'
  · rw [if_pos hd, if_pos (Or.inr hd), hd]
  · rw [if_neg hd, if_neg (not_or.mpr ⟨hback, hd⟩)]

end Words

/-- `IN` and `A`. -/
def inA : List Text := ["IN".toList, "A".toList]

/-- The expressions are those of the beginning of a line and of its end. -/
theorem otherAPattern_eq {short keepIp : Text} (hs : IsWord short) (hk : IsWord keepIp) :
    otherAPattern short keepIp =
      (Ere.lineBeginText .posix short inA, Ere.lineEndText .posix keepIp) := by
  have hend : "[[:space:]]*$".toList = Ere.laidText .posix [] := by decide
  have hclass : "[[:space:]]".toList = Ere.blank .posix := by decide
  have hopened : "[[:space:]]+IN[[:space:]]+A[[:space:]]+".toList = Ere.openedText .posix inA := by
    decide
  have hname : pattern short = ('^' :: (Ere.blank .posix ++ '*' :: Ere.quote short)) ++
      Ere.laidText .posix [] := by
    rw [pattern_eq_lineText hs.fields_eq, Ere.lineText]
    simp
  have htake : ∀ u v : Text, (u ++ v).take ((u ++ v).length - v.length) = u := fun u v => by
    rw [List.length_append, Nat.add_sub_cancel, List.take_left]
  unfold otherAPattern
  rw [hend, hclass, hopened, hname, htake, hk.escapeDots_eq, List.append_assoc]
  simp [Ere.lineBeginText, Ere.lineEndText]

section Names

variable {short keepIp : Text}

theorem inA_word : ∀ g ∈ inA, IsWord g := by
  have hall : ∀ g ∈ inA, g ≠ [] ∧ (g.all hostChar) = true := by decide
  exact fun g hg => ⟨(hall g hg).1, fun c hc => List.all_eq_true.mp (hall g hg).2 c hc⟩

theorem IsWord.forall_cons (hs : IsWord short) : ∀ g ∈ short :: inA, IsWord g :=
  List.forall_mem_cons.mpr ⟨hs, inA_word⟩

theorem translated_lineBeginText (hs : IsWord short) :
    translated (Ere.lineBeginText .posix short inA) = Ere.lineBeginText .python short inA := by
  have hopened : ∀ fs : List Text, (∀ g ∈ fs, '[' ∉ g) →
      translated (Ere.openedText .posix fs) = Ere.openedText .python fs := by
    intro fs hfs
    induction fs with
    | nil =>
      rw [Ere.openedText, translated_blank, translated_of_not_mem (by decide)]
      rfl
    | cons g gs ih =>
      obtain ⟨hg, hgs⟩ := List.forall_mem_cons.mp hfs
      rw [Ere.openedText, translated_blank, translated_cons (by decide), translated_quote hg, ih hgs]
      rfl
  rw [Ere.lineBeginText, translated_cons (by decide), translated_blank, translated_cons (by decide),
    translated_quote (hs.not_mem (by decide)), hopened _ fun g hg => (inA_word g hg).not_mem (by decide)]
  rfl

theorem translated_lineEndText (hk : IsWord keepIp) :
    translated (Ere.lineEndText .posix keepIp) = Ere.lineEndText .python keepIp := by
  rw [Ere.lineEndText, translated_blank, translated_quote (hk.not_mem (by decide)),
    translated_laidText fun _ hm => absurd hm List.not_mem_nil]
  rfl

/-! ## What the readers remove -/

/-- The lines one reader removes, over its own blanks. -/
def deletesOtherA (p : Char → Bool) (short keepIp l : Text) : Bool :=
  (Ere.lineBegin p short inA).search l && !(Ere.lineEnd p keepIp).search l

theorem deletes_otherAScript (hs : IsWord short) (hk : IsWord keepIp) :
    deletes (DnsService.otherAScript short keepIp) = some (deletesOtherA posixSpace short keepIp) := by
  have hscript : DnsService.otherAScript short keepIp =
      "\\|".toList ++ (otherAPattern short keepIp).1 ++ "|\x7b\\|".toList ++
        (otherAPattern short keepIp).2 ++ "|!d\x7d".toList := by
    have hmid : "[[:space:]]+IN[[:space:]]+A[[:space:]]+|\x7b\\|[[:space:]]".toList =
        "[[:space:]]+IN[[:space:]]+A[[:space:]]+".toList ++
          ("|\x7b\\|".toList ++ "[[:space:]]".toList) := by decide
    have hend : "[[:space:]]*$|!d\x7d".toList = "[[:space:]]*$".toList ++ "|!d\x7d".toList := by decide
    unfold DnsService.otherAScript otherAPattern
    rw [hmid, hend]
    simp only [List.append_assoc]
  have hno : ∀ {c : Char}, hostChar c = false → ∀ g ∈ short :: inA, c ∉ g := fun hc g hg =>
    (hs.forall_cons g hg).not_mem hc
  have hforeign : Ere.Foreign .posix '|' := by decide
  have hq : ∀ g ∈ inA, ∀ c ∈ g, Ere.Quotable c := fun g hg => (inA_word g hg).quotable
  rw [hscript, otherAPattern_eq hs hk]
  exact deletes_nested
    (Ere.simple_lineBeginText (hs.not_mem (by decide)) fun g hg => (inA_word g hg).not_mem (by decide))
    (Ere.simple_lineEndText (hk.not_mem (by decide))) (hforeign.not_mem_lineBeginText (hno (by decide)))
    (hforeign.not_mem_lineEndText (hk.not_mem (by decide))) (Ere.parse_lineBeginText hs.quotable hq)
    (Ere.parse_lineEndText hk.quotable)

theorem remoteRemoveOtherA_eq (hs : IsWord short) (hk : IsWord keepIp) (text : Text) :
    remoteRemoveOtherA short keepIp text =
      sedFilter (fun l => !deletesOtherA posixSpace short keepIp l) text := by
  rw [remoteRemoveOtherA, sedDeletes, deletes_otherAScript hs hk]

/-- **What a reader removes**: the lines with the name, `IN` and `A`, and more or a blank after them,
whose last field is not the address. -/
theorem deletesOtherA_iff {p : Char → Bool} (hp : ∀ c, p c = true → isSpace c = true)
    (hs : IsWord short) (hk : IsWord keepIp) {l : Text} :
    deletesOtherA p short keepIp l = true ↔
      (∃ gs, fieldsBy p l = short :: inA ++ gs ∧ (gs ≠ [] ∨ Ere.EndsBlank p l)) ∧
        (fieldsBy p l).getLast? ≠ some keepIp := by
  have hfield : ∀ {t : Text}, IsWord t → IsField p t := fun ht => ⟨ht.1, fun c hc => by
    cases hpc : p c with
    | false => rfl
    | true => exact (hp c hpc).symm.trans (ht.isField.2 c hc)⟩
  rw [deletesOtherA, Bool.and_eq_true,
    Ere.search_lineBegin_iff (hfield hs) fun g hg => hfield (inA_word g hg)]
  refine and_congr_right fun ⟨gs, hl, _⟩ => ?_
  have hlen : 1 < (fieldsBy p l).length := by
    rw [hl]
    simp [inA]
  rw [Bool.not_eq_true', Bool.eq_false_iff, ne_eq, Ere.search_lineEnd_iff_getLast? (hfield hk) hlen]

theorem removeOtherA_eq_dropMatched (hs : IsWord short) (hk : IsWord keepIp) (text : Text) :
    removeOtherA short keepIp text = some (dropMatched (deletesOtherA isSpace short keepIp) text) := by
  have hq : ∀ g ∈ inA, ∀ c ∈ g, Ere.Quotable c := fun g hg => (inA_word g hg).quotable
  have hstart : ∀ l, (Ere.lineBegin isSpace short inA).matchStart l =
      (Ere.lineBegin isSpace short inA).search l := fun l => by
    have hfields : ∀ g ∈ inA, IsField isSpace g := fun g hg => (inA_word g hg).isField
    rw [Bool.eq_iff_iff, Ere.matchStart_lineBegin_iff hs.isField hfields,
      Ere.search_lineBegin_iff hs.isField hfields]
  have hbegin : Ere.parse .python (translated (otherAPattern short keepIp).1) =
      some (Ere.lineBegin isSpace short inA) := by
    rw [otherAPattern_eq hs hk, translated_lineBeginText hs]
    exact Ere.parse_lineBeginText hs.quotable hq
  have hend : Ere.parse .python (translated (otherAPattern short keepIp).2) =
      some (Ere.lineEnd isSpace keepIp) := by
    rw [otherAPattern_eq hs hk, translated_lineEndText hk]
    exact Ere.parse_lineEndText hk.quotable
  rw [removeOtherA]
  simp only [hbegin, hend, hstart]
  rfl

/-- **The expressions are the filter by fields.** -/
theorem removeOtherA_eq (hs : IsWord short) (hk : IsWord keepIp) (text : Text) :
    removeOtherA short keepIp text = some (dnsRemoveOtherA short keepIp text) := by
  have hmatch : deletesOtherA isSpace short keepIp =
      fun l => isReplaced short l && lastField l != keepIp := by
    funext l
    have hends : Ere.EndsBlank isSpace l ↔ l.getLast?.any isSpace = true := by
      rw [Option.any_eq_true]
      constructor
      · rintro ⟨u, c, rfl, hc⟩
        exact ⟨c, List.getLast?_concat, hc⟩
      · rintro ⟨c, hl, hc⟩
        obtain ⟨u, rfl⟩ := List.getLast?_eq_some_iff.mp hl
        exact ⟨u, c, rfl, hc⟩
    have htake : ∀ fs : List Text, fs.take 3 = short :: inA ↔ ∃ gs, fs = short :: inA ++ gs := fun fs => by
      constructor
      · intro h
        exact ⟨fs.drop 3, by rw [← h, List.take_append_drop]⟩
      · rintro ⟨gs, rfl⟩
        rfl
    rw [Bool.eq_iff_iff, deletesOtherA_iff (fun _ => id) hs hk, Bool.and_eq_true, isReplaced,
      Bool.and_eq_true, beq_iff_eq, Bool.or_eq_true, decide_eq_true_eq, bne_iff_ne, lastField, ← hends]
    change _ ↔ ((fields l).take 3 = short :: inA ∧ _) ∧ _
    rw [htake]
    constructor
    · rintro ⟨⟨gs, hl, hmore⟩, hlast⟩
      refine ⟨⟨⟨gs, hl⟩, hmore.imp_left fun hne => ?_⟩, fun e => hlast ?_⟩
      · have hlen := congrArg List.length hl
        have hpos := List.length_pos_iff.mpr hne
        simp [inA] at hlen
        change 4 ≤ (fieldsBy isSpace l).length
        omega
      · obtain ⟨x, hx⟩ : ∃ x, (fields l).getLast? = some x := by
          cases h : (fields l).getLast? with
          | none =>
            change fields l = _ at hl
            rw [List.getLast?_eq_none_iff.mp h] at hl
            exact absurd hl (by simp)
          | some x => exact ⟨x, rfl⟩
        rw [hx, Option.getD_some] at e
        exact hx.trans (congrArg some e)
    · rintro ⟨⟨⟨gs, hl⟩, hmore⟩, hlast⟩
      refine ⟨⟨gs, hl, hmore.imp_left fun hlen => ?_⟩, fun e => hlast ?_⟩
      · rintro rfl
        rw [hl] at hlen
        exact absurd hlen (by simp [inA])
      · change (fields l).getLast? = _ at e
        rw [e, Option.getD_some]
  rw [removeOtherA_eq_dropMatched hs hk, hmatch]
  rfl

end Names

/-! ## The same lines on every master -/

/-- The A records of the zone are lines `name IN A ip`, with spaces and tabs around the fields. -/
def PlainA (text : Text) : Prop := ∀ l ∈ lines text, ((fields (bare l)).drop 1).take 2 = inA →
  (fields (bare l)).length = 4 ∧ ';' ∉ l ∧ (l.all fun c => !isSpace c || c == ' ' || c == '\t') = true

instance (text : Text) : Decidable (PlainA text) := inferInstanceAs (Decidable (∀ _ ∈ _, _))

/-- An A record of the name that points elsewhere. -/
def pointsElsewhere (short keepIp l : Text) : Bool :=
  (fields (bare l)).take 3 == short :: inA && (fields (bare l)).drop 3 != [keepIp]

/-- Both leave the lines of the zone but the A records of the name that point elsewhere. -/
def LeavesSame (short keepIp text : Text) : Prop :=
  ∃ here, removeOtherA short keepIp text = some here ∧
    lines here = (lines text).filter (fun l => !pointsElsewhere short keepIp l) ∧
    lines (remoteRemoveOtherA short keepIp text) =
      (lines text).filter fun l => !pointsElsewhere short keepIp l

section Same

variable {short keepIp text l : Text}

/-- Over the blanks of either reader, a line that is removed is an A record that points elsewhere. -/
theorem deletesOtherA_eq {p : Char → Bool} (hp : ∀ c, p c = true → isSpace c = true)
    (hsp : p ' ' = true) (htab : p '\t' = true) (hs : IsWord short) (hk : IsWord keepIp)
    (hz : PlainA text) (hl : l ∈ lines text) :
    deletesOtherA p short keepIp l = pointsElsewhere short keepIp l := by
  -- a line that begins as an A record of the name does before its comment too, so the zone bounds it
  have hplain : ((fields (bare l)).drop 1).take 2 = inA →
      (fields (bare l)).length = 4 ∧ bare l = l ∧ fieldsBy p l = fields l := fun h => by
    obtain ⟨hlen, hno, hblank⟩ := hz l hl h
    refine ⟨hlen, bare_eq_self hno, fieldsBy_congr fun c hc => ?_⟩
    have hc' := List.all_eq_true.mp hblank c hc
    cases hs : isSpace c with
    | false =>
      cases hpc : p c with
      | false => rfl
      | true => exact (hp c hpc).symm.trans hs
    | true =>
      have hone : c = ' ' ∨ c = '\t' := by simpa [hs] using hc'
      rcases hone with rfl | rfl
      · exact hsp
      · exact htab
  have hshort : fields (bare l) = short :: inA ++ (fields (bare l)).drop 3 →
      ((fields (bare l)).drop 1).take 2 = inA := fun h => by
    rw [h]
    rfl
  rw [Bool.eq_iff_iff, deletesOtherA_iff hp hs hk, pointsElsewhere, Bool.and_eq_true, beq_iff_eq,
    bne_iff_ne]
  constructor
  · rintro ⟨hbegin, hlast⟩
    obtain ⟨v, w, rfl, hv, u, c, rfl, hc⟩ :=
      (Ere.exists_append_iff (List.cons_ne_nil short inA)).mpr hbegin
    have hchars : ∀ x ∈ u ++ [c], p x = true ∨ hostChar x = true := fun x hx => by
      cases hpx : p x with
      | true => exact Or.inl rfl
      | false =>
        have hflat : x ∈ (fieldsBy p (u ++ [c])).flatten := by
          rw [fieldsBy_flatten]
          exact List.mem_filter.mpr ⟨hx, by simp [hpx]⟩
        rw [hv] at hflat
        obtain ⟨g, hg, hxg⟩ := List.mem_flatten.mp hflat
        exact Or.inr ((hs.forall_cons g hg).2 x hxg)
    have hspace : ∀ x ∈ u ++ [c], isSpace x = p x := fun x hx => by
      rcases hchars x hx with h | h
      · rw [h, hp x h]
      · cases hpx : p x with
        | false => exact isSpace_of_hostChar h
        | true => exact hp x hpx
    have hbare : bare (u ++ [c] ++ w) = u ++ [c] ++ bare w := by
      unfold bare
      refine List.takeWhile_append_of_pos fun x hx => ?_
      have hne : x ≠ ';' := by
        rintro rfl
        rcases hchars _ hx with h | h
        · exact absurd (hp _ h) (by decide)
        · exact absurd h (by decide)
      simpa using hne
    have hu : fields u = short :: inA := by
      have hcs : isSpace c = true := hp c hc
      rw [← hv, ← fieldsBy_congr hspace, fieldsBy_append_cons_sep hcs, fieldsBy_nil, List.append_nil]
      rfl
    have hfields : fields (bare (u ++ [c] ++ w)) = short :: inA ++ fields (bare w) := by
      rw [hbare, List.append_assoc, List.singleton_append, ← hu]
      exact fieldsBy_append_cons_sep (hp c hc) u (bare w)
    obtain ⟨hlen, hself, hsame⟩ := hplain (by rw [hfields]; rfl)
    obtain ⟨ip, hip⟩ : ∃ ip, fields (bare w) = [ip] := by
      apply List.length_eq_one_iff.mp
      rw [hfields] at hlen
      simpa [inA] using hlen
    rw [hip] at hfields
    rw [hfields]
    refine ⟨rfl, fun e => hlast ?_⟩
    rw [hsame, ← congrArg fields hself, hfields, List.getLast?_append_of_ne_nil _ (List.cons_ne_nil _ _)]
    change [ip] = [keepIp] at e
    rw [e]
    rfl
  · rintro ⟨htake, hdrop⟩
    have hsplit : fields (bare l) = short :: inA ++ (fields (bare l)).drop 3 := by
      rw [← htake, List.take_append_drop]
    obtain ⟨hlen, hbare, hfields⟩ := hplain (hshort hsplit)
    obtain ⟨ip, hip⟩ : ∃ ip, (fields (bare l)).drop 3 = [ip] := by
      apply List.length_eq_one_iff.mp
      rw [List.length_drop, hlen]
    rw [hip] at hsplit hdrop
    rw [hbare] at hsplit
    rw [hfields]
    refine ⟨⟨[ip], hsplit, Or.inl (List.cons_ne_nil _ _)⟩, fun e => hdrop ?_⟩
    rw [hsplit, List.getLast?_append_of_ne_nil _ (List.cons_ne_nil _ _)] at e
    have hip : ip = keepIp := Option.some.inj e
    rw [hip]

/-- A record that is removed stands on one line for both. -/
theorem oneLine_of_pointsElsewhere (hz : PlainA text) (hl : l ∈ lines text)
    (h : pointsElsewhere short keepIp l = true) : OneLine l := by
  have htake : (fields (bare l)).take 3 = short :: inA :=
    beq_iff_eq.mp ((Bool.and_eq_true _ _).mp h).1
  have hinA : ((fields (bare l)).drop 1).take 2 = inA := by
    rw [← List.take_append_drop 3 (fields (bare l)), htake]
    rfl
  intro c hc
  cases hb : isLineBreak c with
  | false => rfl
  | true =>
    have hblank := List.all_eq_true.mp (hz l hl hinA).2.2 c hc
    have hone : c = ' ' ∨ c = '\t' := by simpa [isSpace_of_isLineBreak hb] using hblank
    rcases hone with rfl | rfl <;> exact absurd hb (by decide)

/-- Without other line ends, `str.splitlines` cuts a file as `sed` does. -/
theorem splitlines_eq_lines (h : ∀ l ∈ lines text, OneLine l) : splitlines text = lines text := by
  obtain ⟨ht, hls, hu⟩ := cutLines_spec text
  rw [lines_eq_cutLines] at h ⊢
  conv_lhs => rw [ht]
  have hclosed : ∀ l ∈ (cutLines text).1, OneLine l := fun l hl => h l (List.mem_append_left _ hl)
  rw [splitlines_unlines_append hclosed]
  congr 1
  split
  · rename_i hnil
    rw [hnil]
    rfl
  · rename_i hne
    refine splitlines_of_oneLine hne (h _ (List.mem_append_right _ ?_))
    rw [if_neg hne]
    exact List.mem_singleton_self _

/-- What the rewrite here leaves. -/
theorem lines_dropMatched (matcher : Text → Bool) (text : Text) :
    lines (dropMatched matcher text) =
      if (splitlines text).filter (fun l => !matcher l) = [] then [[]]
      else (splitlines text).filter fun l => !matcher l := by
  unfold dropMatched
  split
  · rename_i hnil
    rw [hnil]
    rfl
  · rename_i hne
    rw [intercalate_append_newline hne, lines_unlines fun l hl => ?_]
    exact (oneLine_of_mem_splitlines l (List.mem_filter.mp hl).1).not_mem

end Same

/-- **Replacing an address leaves the same lines everywhere** exactly when a line is left, and no line
left holds a character that ends a line for `str.splitlines` only. -/
theorem otherA_same_iff {short keepIp text : Text} (hs : IsWord short) (hk : IsWord keepIp)
    (hz : PlainA text) : LeavesSame short keepIp text ↔
      (∃ l ∈ lines text, pointsElsewhere short keepIp l = false) ∧
        ∀ l ∈ lines text, pointsElsewhere short keepIp l = false → OneLine l := by
  have hsed : lines (remoteRemoveOtherA short keepIp text) =
      (lines text).filter fun l => !pointsElsewhere short keepIp l := by
    rw [remoteRemoveOtherA_eq hs hk, lines_sedFilter]
    refine List.filter_congr fun l hl => ?_
    rw [deletesOtherA_eq (fun _ => isSpace_of_posixSpace) (by decide) (by decide) hs hk hz hl]
  rw [LeavesSame, removeOtherA_eq_dropMatched hs hk]
  constructor
  · rintro ⟨here, hhere, hlines, -⟩
    obtain rfl := Option.some.inj hhere
    rw [lines_dropMatched] at hlines
    have hone : ∀ l ∈ (lines text).filter (fun l => !pointsElsewhere short keepIp l), OneLine l := by
      intro l hl
      rw [← hlines] at hl
      split at hl
      · rw [List.mem_singleton.mp hl]
        exact fun _ hc => absurd hc List.not_mem_nil
      · exact oneLine_of_mem_splitlines l (List.mem_filter.mp hl).1
    refine ⟨?_, fun l hl h => hone l (List.mem_filter.mpr ⟨hl, by simp [h]⟩)⟩
    have hne : (lines text).filter (fun l => !pointsElsewhere short keepIp l) ≠ [] := by
      rw [← hlines]
      split
      · exact List.cons_ne_nil _ _
      · assumption
    obtain ⟨l, hl⟩ := List.exists_mem_of_ne_nil _ hne
    obtain ⟨hl, h⟩ := List.mem_filter.mp hl
    exact ⟨l, hl, by simpa using h⟩
  · rintro ⟨⟨l₀, hl₀, h₀⟩, hone⟩
    have hall : ∀ l ∈ lines text, OneLine l := fun l hl => by
      cases h : pointsElsewhere short keepIp l with
      | false => exact hone l hl h
      | true => exact oneLine_of_pointsElsewhere hz hl h
    have hfilter : (splitlines text).filter (fun l => !deletesOtherA isSpace short keepIp l) =
        (lines text).filter fun l => !pointsElsewhere short keepIp l := by
      rw [splitlines_eq_lines hall]
      refine List.filter_congr fun l hl => ?_
      rw [deletesOtherA_eq (fun _ => id) (by decide) (by decide) hs hk hz hl]
    refine ⟨_, rfl, ?_, hsed⟩
    rw [lines_dropMatched, hfilter, if_neg]
    exact List.ne_nil_of_mem (List.mem_filter.mpr ⟨hl₀, by simp [h₀]⟩)

theorem otherA_same_iff_replaced :
    LeavesSame "node1".toList "10.0.0.1".toList
      ("node1\tIN A 10.0.0.9\n node1 IN  A\t10.0.0.1 \nnode10 IN A 10.0.0.9\n".toList ++
        "; node1 IN A 10.0.0.9".toList) :=
  (otherA_same_iff ⟨by decide, by decide⟩ ⟨by decide, by decide⟩ (by decide)).mpr
    (by decide)

/-- **A zone that loses its only line** is left with an empty line here, and empty on a master. -/
theorem emptied_not_same :
    ¬ LeavesSame "node1".toList "10.0.0.2".toList "node1 IN A 10.0.0.1\n".toList := by
  rintro ⟨here, hhere, hlines, -⟩
  have hempty : removeOtherA "node1".toList "10.0.0.2".toList "node1 IN A 10.0.0.1\n".toList =
      some ['\n'] := by decide
  obtain rfl := Option.some.inj (hempty.symm.trans hhere)
  exact absurd hlines (by decide)

end LabInABox.Dns
