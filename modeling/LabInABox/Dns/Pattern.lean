import LabInABox.Dns.Prune
import LabInABox.Text.EreParse

/-!
# The expression of a record

Model of the two readers of `pattern` (`libs/dns_zone.py`), for the removals of `libs/services.py`:
`_dns_remove_record` compiles it with `re` and `_remote_dns_remove_record` sends it to `sed -Ei`.

* `pattern` escapes backslashes and dots only. `unescaped` are the characters it leaves with a meaning
  of their own in one of the two dialects, but for the bracket.
* `Laid r l`: the line is the fields of the record with ASCII blanks between and around them.
* `Exact`: what the docstring of `pattern` promises of a zone file, for both readers, each over the
  lines it reads (`sed` ends a line at a newline, `str.splitlines` at more characters), and the
  removals that follow from it.

Results:
* `pattern_eq_lineText`, `localPattern_eq_lineText`: the expression is that of a line of fields.
* `pattern_exact_iff`: it selects exactly the lines of a record when it escapes all of it and each
  line the record is read from lays out its fields and nothing else. For a record with a bracket only
  that this is enough: a bracket expression can match itself by chance, as `[+-x]+` does.
-/

namespace LabInABox.Dns

open Text

/-! ## The two readers -/

/-- `sed -Ei script`, for a script that deletes. Any other leaves the file. -/
def sedDeletes (script text : Text) : Text :=
  match deletes script with
  | none => text
  | some matcher => sedFilter (fun l => !matcher l) text

/-- `re.compile(..).match` here, `sed -Ei` on a master. -/
def engines : Engines where
  compile expression := (Ere.parse .python expression).map Ere.matchStart
  sed := sedDeletes

/-! ## The expression is that of a line of fields -/

theorem escapeDots_escapeBackslashes (t : Text) :
    escapeDots (escapeBackslashes t) = Ere.quote t := by
  induction t with
  | nil => rfl
  | cons c cs ih =>
    have hcons : escapeDots (escapeBackslashes (c :: cs)) =
        escapeDots (if c = '\\' then ['\\', '\\'] else [c]) ++ escapeDots (escapeBackslashes cs) := by
      simp only [escapeDots, escapeBackslashes, List.flatMap_cons, List.flatMap_append]
    rw [hcons, ih, Ere.quote_cons]
    congr 1
    by_cases hb : c = '\\'
    · subst hb
      rfl
    · by_cases hd : c = '.'
      · subst hd
        rfl
      · rw [if_neg hb, if_neg (not_or.mpr ⟨hb, hd⟩), escapeDots, List.flatMap_singleton, if_neg hd]

theorem intercalate_quote (f : Text) (fs : List Text) :
    "[[:space:]]+".toList.intercalate ((f :: fs).map Ere.quote) ++ "[[:space:]]*$".toList =
      Ere.quote f ++ Ere.laidText .posix fs := by
  induction fs generalizing f with
  | nil =>
    rw [List.map_singleton, List.intercalate_singleton]
    rfl
  | cons g gs ih =>
    rw [List.map_cons, List.map_cons, List.intercalate_cons_cons, ← List.map_cons, List.append_assoc,
      List.append_assoc, ih]
    rfl

/-- The expression of a record, as `sed` reads it. -/
theorem pattern_eq_lineText {r f : Text} {fs : List Text} (h : fields r = f :: fs) :
    pattern r = Ere.lineText .posix f fs := by
  have hquote : (fun field => escapeDots (escapeBackslashes field)) = Ere.quote :=
    funext escapeDots_escapeBackslashes
  have hbegin : "^[[:space:]]*".toList = '^' :: (spaceClass ++ ['*']) := by decide
  have hline : ∀ t, '^' :: (spaceClass ++ ['*']) ++ t = '^' :: (spaceClass ++ '*' :: t) := fun t => by
    rw [List.cons_append, List.append_assoc]
    rfl
  have hrest := congrArg (fun t => '^' :: (spaceClass ++ '*' :: t)) (intercalate_quote f fs)
  unfold pattern
  rw [hquote, h, hbegin, List.append_assoc, hline]
  exact hrest

section Replace

variable {old new : Text}

theorem replaceFrom_drop (u t : Text) :
    replaceFrom old new u.length (u ++ t) = replaceFrom old new 0 t := by
  induction u with
  | nil => rfl
  | cons c cs ih => exact ih

/-- An occurrence is replaced. -/
theorem replaceFrom_append (hne : old ≠ []) (t : Text) :
    replaceFrom old new 0 (old ++ t) = new ++ replaceFrom old new 0 t := by
  obtain ⟨c, cs, rfl⟩ := List.exists_cons_of_ne_nil hne
  have hpre : (c :: cs) <+: c :: (cs ++ t) := ⟨t, rfl⟩
  rw [List.cons_append, replaceFrom, if_pos hpre, List.length_cons, Nat.add_sub_cancel,
    replaceFrom_drop]

/-- What does not hold the first character is left. -/
theorem replaceFrom_of_not_mem {c : Char} (hc : old.head? = some c) {u : Text} (hu : c ∉ u) (t : Text) :
    replaceFrom old new 0 (u ++ t) = u ++ replaceFrom old new 0 t := by
  induction u with
  | nil => rfl
  | cons x xs ih =>
    obtain ⟨hx, hxs⟩ := not_or.mp fun hm => hu (List.mem_cons.mpr hm)
    have hno : ¬ old <+: x :: (xs ++ t) := by
      rintro ⟨v, hv⟩
      cases old with
      | nil => exact absurd hc (by simp)
      | cons y ys =>
        obtain rfl : y = c := Option.some.inj hc
        exact hx (List.cons.inj hv).1
    rw [List.cons_append, replaceFrom, if_neg hno, ih hxs]
    rfl

end Replace

/-- `p.replace("[[:space:]]", r"\s")`. -/
def translated (p : Text) : Text := replaceFrom "[[:space:]]".toList "\\s".toList 0 p

theorem translated_blank (t : Text) :
    translated (Ere.blank .posix ++ t) = Ere.blank .python ++ translated t := by
  have hclass : "[[:space:]]".toList = Ere.blank .posix := by decide
  have hnew : "\\s".toList = Ere.blank .python := by decide
  rw [translated, translated, hclass, hnew]
  exact replaceFrom_append (by decide) t

theorem translated_append {u : Text} (hu : '[' ∉ u) (t : Text) :
    translated (u ++ t) = u ++ translated t :=
  replaceFrom_of_not_mem (by decide) hu t

theorem translated_of_not_mem {u : Text} (hu : '[' ∉ u) : translated u = u := by
  have hnil : translated [] = [] := rfl
  have h := translated_append hu []
  rwa [hnil, List.append_nil] at h

theorem translated_cons {c : Char} (hc : '[' ≠ c) (t : Text) : translated (c :: t) = c :: translated t :=
  translated_append (u := [c]) (fun hm => hc (List.mem_singleton.mp hm)) t

theorem translated_quote {u : Text} (hu : '[' ∉ u) (t : Text) :
    translated (Ere.quote u ++ t) = Ere.quote u ++ translated t :=
  translated_append (Ere.not_mem_quote (by decide) hu) t

theorem translated_laidText {fs : List Text} (hfs : ∀ g ∈ fs, '[' ∉ g) :
    translated (Ere.laidText .posix fs) = Ere.laidText .python fs := by
  induction fs with
  | nil =>
    rw [Ere.laidText, translated_blank, translated_of_not_mem (by decide)]
    rfl
  | cons g gs ih =>
    obtain ⟨hg, hgs⟩ := List.forall_mem_cons.mp hfs
    rw [Ere.laidText, translated_blank, translated_cons (by decide), translated_quote hg, ih hgs]
    rfl

theorem not_mem_of_mem_fields {r g : Text} {c : Char} (hc : c ∉ r) (hg : g ∈ fields r) : c ∉ g :=
  fun hm => by
    have hflat : c ∈ (fields r).flatten := List.mem_flatten.mpr ⟨g, hg, hm⟩
    rw [fields, fieldsBy_flatten] at hflat
    exact hc (List.mem_filter.mp hflat).1

/-- The expression of a record, as `re` reads it. -/
theorem localPattern_eq_lineText {r f : Text} {fs : List Text} (h : fields r = f :: fs)
    (hb : '[' ∉ r) : localPattern r = Ere.lineText .python f fs := by
  have hno : ∀ g ∈ f :: fs, '[' ∉ g := fun g hg => not_mem_of_mem_fields hb (h ▸ hg)
  obtain ⟨hf, hfs⟩ := List.forall_mem_cons.mp hno
  have hline : translated (Ere.lineText .posix f fs) = Ere.lineText .python f fs := by
    rw [Ere.lineText, translated_cons (by decide), translated_blank, translated_cons (by decide),
      translated_quote hf, translated_laidText hfs]
    rfl
  rw [← hline, ← pattern_eq_lineText h]
  rfl

/-! ## The lines of a record -/

/-- The characters `pattern` leaves with a meaning of their own, but for the bracket. -/
def unescaped : Text := "*+?()\x7b|^$".toList

/-- The line is the fields of the record, with ASCII blanks between and around them. -/
def Laid (r l : Text) : Prop := fieldsBy posixSpace l = fields r

instance (r l : Text) : Decidable (Laid r l) := inferInstanceAs (Decidable (_ = _))

section Lines

variable {r l : Text}

theorem isField_of_mem_fields {f : Text} (h : f ∈ fields r) : IsField isSpace f :=
  isField_of_mem_fieldsBy h

theorem isField_posix {f : Text} (h : IsField isSpace f) : IsField posixSpace f := by
  refine ⟨h.1, fun c hc => ?_⟩
  have hs := h.2 c hc
  cases hp : posixSpace c with
  | false => rfl
  | true => exact (isSpace_of_posixSpace hp).symm.trans hs

/-- What stands in a laid out line, but for blanks, stands in a field of the record. -/
theorem Laid.mem (h : Laid r l) {c : Char} (hc : c ∈ l) (hp : posixSpace c = false) :
    c ∈ (fields r).flatten := by
  rw [← h, fieldsBy_flatten]
  exact List.mem_filter.mpr ⟨hc, by simp [hp]⟩

theorem mem_of_mem_flatten_fields {c : Char} (h : c ∈ (fields r).flatten) :
    c ∈ r ∧ isSpace c = false := by
  rw [fields, fieldsBy_flatten] at h
  obtain ⟨hm, hs⟩ := List.mem_filter.mp h
  exact ⟨hm, by simpa using hs⟩

theorem Laid.no_comment (hr : IsRecord r) (h : Laid r l) : ';' ∉ l := fun hm =>
  hr.no_comment (mem_of_mem_flatten_fields (h.mem hm (by decide))).1

/-- A laid out line has as many characters besides blanks as the record. -/
theorem Laid.filter_eq (h : Laid r l) : l.filter (fun c => !isSpace c) = (fields r).flatten := by
  rw [← h, fieldsBy_flatten]
  refine List.filter_congr fun c hc => ?_
  cases hp : posixSpace c with
  | true => rw [isSpace_of_posixSpace hp]
  | false => rw [(mem_of_mem_flatten_fields (h.mem hc hp)).2]

/-- Cutting a text into lines loses blanks only. -/
theorem filter_flatten_splitlines (t : Text) :
    (splitlines t).flatten.filter (fun c => !isSpace c) = t.filter fun c => !isSpace c := by
  fun_induction splitlines t with
  | case1 => rfl
  | case2 cs ih =>
    rw [List.flatten_cons, List.nil_append, ih, List.filter_cons_of_neg (by decide),
      List.filter_cons_of_neg (by decide)]
  | case3 c cs _ hc ih =>
    rw [List.flatten_cons, List.nil_append, ih,
      List.filter_cons_of_neg (by simp [isSpace_of_isLineBreak hc])]
  | case4 c cs _ _ ih =>
    have hflat : (consHead c (splitlines cs)).flatten = c :: (splitlines cs).flatten := by
      cases splitlines cs <;> rfl
    rw [hflat, List.filter_cons, List.filter_cons, ih]

theorem records_eq_singleton_iff : records l = [r] ↔ r ∈ records l ∧ ∀ x ∈ records l, x = r := by
  constructor
  · intro h
    rw [h]
    exact ⟨List.mem_singleton_self r, fun _ => List.mem_singleton.mp⟩
  · rintro ⟨hm, honly⟩
    have hnodup : (records l).Nodup := List.nodup_dedup _
    obtain ⟨n, hn⟩ : ∃ n, records l = List.replicate n r := ⟨_, List.eq_replicate_of_mem honly⟩
    have hle : n ≤ 1 := List.nodup_replicate.mp (hn ▸ hnodup)
    rw [hn] at hm ⊢
    have hpos : n ≠ 0 := (List.mem_replicate.mp hm).1
    obtain rfl : n = 1 := by omega
    rfl

theorem recordOf_eq_some_iff (hr : IsRecord r) :
    recordOf l = some r ↔ fields (bare l) = fields r := by
  rw [recordOf_eq]
  constructor
  · intro h
    split at h
    · rw [← Option.some.inj h, fields_join fun f hf => isField_of_mem_fields hf]
    · exact absurd h (Option.some_ne_none _).symm
  · intro h
    rw [h, if_pos hr.keeps, ← hr.eq_join]

/-- **A laid out line holds its record alone**, if it holds it. -/
theorem Laid.records_eq (hr : IsRecord r) (h : Laid r l) (hm : r ∈ records l) : records l = [r] := by
  obtain ⟨p, hp, hrec⟩ := mem_records.mp hm
  have hbare : ∀ q ∈ splitlines l, bare q = q := fun q hq =>
    bare_eq_self fun hc => h.no_comment hr (mem_of_mem_splitlines hq hc)
  have hfields := (recordOf_eq_some_iff hr).mp hrec
  rw [hbare p hp] at hfields
  obtain ⟨before, after, hsplit⟩ := List.append_of_mem hp
  -- all that is no blank stands in the line of the record
  have hcount := filter_flatten_splitlines l
  rw [h.filter_eq, hsplit, List.flatten_append, List.flatten_cons, List.filter_append,
    List.filter_append] at hcount
  have hpiece : p.filter (fun c => !isSpace c) = (fields r).flatten := by
    rw [← hfields, fields, fieldsBy_flatten]
  have hlen := congrArg List.length hcount
  rw [hpiece, List.length_append, List.length_append] at hlen
  have hblank : ∀ q ∈ splitlines l, q = p ∨ fields q = [] := fun q hq => by
    rw [hsplit] at hq
    have hnone : ∀ ls : List Text, (ls.flatten.filter fun c => !isSpace c).length = 0 → q ∈ ls →
        fields q = [] := fun ls hls hql => by
      refine fieldsBy_eq_nil_of_blank fun c hc => ?_
      have hnil := List.filter_eq_nil_iff.mp (List.eq_nil_of_length_eq_zero hls) c
        (List.mem_flatten.mpr ⟨q, hql, hc⟩)
      simpa using hnil
    rcases List.mem_append.mp hq with hq | hq
    · exact Or.inr (hnone before (by omega) hq)
    · rcases List.mem_cons.mp hq with hq | hq
      · exact Or.inl hq
      · exact Or.inr (hnone after (by omega) hq)
  have honly : ∀ x ∈ records l, x = r := fun x hx => by
    obtain ⟨q, hq, hqx⟩ := mem_records.mp hx
    rcases hblank q hq with rfl | hnil
    · exact Option.some.inj (hqx.symm.trans hrec)
    · rw [recordOf_eq, hbare q hq, hnil] at hqx
      exact absurd hqx (Option.some_ne_none _).symm
  exact records_eq_singleton_iff.mpr ⟨hm, honly⟩

end Lines

/-! ## What a removal leaves -/

section Removal

variable {text r x : Text}

theorem recordOf_nil_ne (x : Text) : ¬ recordOf [] = some x := fun h => by
  rw [recordOf_of_blank fun _ hc => absurd hc List.not_mem_nil] at h
  exact absurd h (Option.some_ne_none x).symm

/-- The records of a file are those of its lines, as `sed` cuts it. -/
theorem mem_records_lines : x ∈ records text ↔ ∃ l ∈ lines text, x ∈ records l := by
  simp only [mem_records]
  exact exists_splitlines_iff (recordOf_nil_ne x) text

theorem mem_records_sedFilter {keep : Text → Bool} :
    x ∈ records (sedFilter keep text) ↔ ∃ l ∈ lines text, keep l = true ∧ x ∈ records l := by
  rw [mem_records_lines, lines_sedFilter]
  simp only [List.mem_filter, and_assoc]

theorem mem_records_dropMatched {matcher : Text → Bool} :
    x ∈ records (dropMatched matcher text) ↔
      ∃ l ∈ splitlines text, matcher l = false ∧ recordOf l = some x := by
  rw [mem_records]
  exact exists_splitlines_dropMatched (recordOf_nil_ne x)

/-- The script of `_remote_dns_remove_record`. -/
def removeScript (record : Text) : Text := "\\|".toList ++ pattern record ++ "|d".toList

theorem zoneRecords_remoteDnsRemoveRecord {z : Zones} {server fileName : Text}
    (h : z (some server, fileName) = some text) :
    zoneRecords (remoteDnsRemoveRecord engines z server fileName r) (some server) fileName =
      records (sedDeletes (removeScript r) text) := by
  rw [zoneRecords, remoteDnsRemoveRecord, h]
  exact congrArg records (Zones.text_put_self _ _ _)

theorem zoneRecords_dnsRemoveRecord {z : Zones} {fileName : Text} {e : Ere}
    (h : z (none, fileName) = some text) (he : Ere.parse .python (localPattern r) = some e) :
    ∃ z', dnsRemoveRecord engines z fileName r = some z' ∧
      zoneRecords z' none fileName = records (dropMatched e.matchStart text) := by
  refine ⟨z.put (none, fileName) (dropMatched e.matchStart text), ?_, ?_⟩
  · rw [dnsRemoveRecord, h]
    simp only [engines, he, Option.map_some]
  · rw [zoneRecords, Zones.text_put_self]

end Removal

/-! ## When the expression is exact -/

/-- What `pattern` promises of a record of a zone file. -/
structure Exact (text r : Text) : Prop where
  /-- On a master, the expression selects the lines of the record. -/
  there : ∃ e, Ere.parse .posix (pattern r) = some e ∧
    ∀ l ∈ lines text, (e.search l = true ↔ records l = [r])
  /-- Here, its translation selects them. -/
  here : ∃ e, Ere.parse .python (localPattern r) = some e ∧
    ∀ l ∈ splitlines text, (e.matchStart l = true ↔ records l = [r])
  /-- `_remote_dns_remove_record` removes the record and nothing else. -/
  removedThere : ∀ (z : Zones) (server fileName : Text), z (some server, fileName) = some text →
    ∀ x, x ∈ zoneRecords (remoteDnsRemoveRecord engines z server fileName r) (some server) fileName ↔
      x ∈ records text ∧ x ≠ r
  /-- `_dns_remove_record` removes the record and nothing else. -/
  removedHere : ∀ (z : Zones) (fileName : Text), z (none, fileName) = some text →
    ∃ z', dnsRemoveRecord engines z fileName r = some z' ∧
      ∀ x, x ∈ zoneRecords z' none fileName ↔ x ∈ records text ∧ x ≠ r

/-- The expression escapes all of the record, and each line the record is read from is laid out. -/
structure Selectable (text r : Text) : Prop where
  escaped : ∀ c ∈ r, c ∉ unescaped
  laid : ∀ l ∈ lines text, (r ∈ records l ↔ Laid r l)

section Exact

variable {text r : Text}

theorem quotable_of_escaped (hb : '[' ∉ r) (h : ∀ c ∈ r, c ∉ unescaped) :
    ∀ g ∈ fields r, ∀ c ∈ g, Ere.Quotable c := fun g hg c hc => by
  have hcr := (mem_of_mem_flatten_fields (List.mem_flatten.mpr ⟨g, hg, hc⟩)).1
  have hall : ∀ x ∈ Ere.special, x ∈ unescaped ∨ x = '[' ∨ x = '\\' ∨ x = '.' := by decide
  by_cases hs : c ∈ Ere.special
  · rcases hall c hs with hu | rfl | hq
    · exact absurd hu (h c hcr)
    · exact absurd hcr hb
    · exact Or.inr hq
  · exact Or.inl hs

theorem simple_pattern (hr : IsRecord r) (hb : '[' ∉ r) : Ere.Simple .posix (pattern r) ∧
    Ere.Simple .python (localPattern r) := by
  obtain ⟨f, fs, hf⟩ := List.exists_cons_of_ne_nil hr.fields_ne_nil
  have hno : ∀ g ∈ f :: fs, '[' ∉ g := fun g hg => not_mem_of_mem_fields hb (hf ▸ hg)
  obtain ⟨hg, hgs⟩ := List.forall_mem_cons.mp hno
  rw [pattern_eq_lineText hf, localPattern_eq_lineText hf hb]
  exact ⟨Ere.simple_lineText hg hgs, Ere.simple_lineText hg hgs⟩

/-- **An escaped record** is read as the line of its fields, by both readers. -/
theorem exists_parse (hr : IsRecord r) (hb : '[' ∉ r) (h : ∀ c ∈ r, c ∉ unescaped) :
    (∃ e, Ere.parse .posix (pattern r) = some e ∧ ∀ l, e.search l = true ↔ Laid r l) ∧
      ∃ e, Ere.parse .python (localPattern r) = some e ∧
        ∀ l, e.matchStart l = true ↔ fields l = fields r := by
  obtain ⟨f, fs, hf⟩ := List.exists_cons_of_ne_nil hr.fields_ne_nil
  have hq := quotable_of_escaped hb h
  have hfield : ∀ g ∈ fields r, IsField isSpace g := fun g => isField_of_mem_fields
  rw [hf] at hq hfield
  obtain ⟨hq₁, hq₂⟩ := List.forall_mem_cons.mp hq
  obtain ⟨hf₁, hf₂⟩ := List.forall_mem_cons.mp hfield
  rw [pattern_eq_lineText hf, localPattern_eq_lineText hf hb]
  refine ⟨⟨_, Ere.parse_lineText hq₁ hq₂, fun l => ?_⟩, _, Ere.parse_lineText hq₁ hq₂, fun l => ?_⟩
  · rw [Laid, hf]
    exact Ere.search_line_iff (isField_posix hf₁) fun g hg => isField_posix (hf₂ g hg)
  · rw [hf]
    exact Ere.matchStart_line_iff hf₁ hf₂

/-- The bar is the delimiter of the script. -/
theorem not_mem_bar_pattern (hr : IsRecord r) (h : '|' ∉ r) : '|' ∉ pattern r := by
  obtain ⟨f, fs, hf⟩ := List.exists_cons_of_ne_nil hr.fields_ne_nil
  rw [pattern_eq_lineText hf]
  have hforeign : Ere.Foreign .posix '|' := by decide
  exact hforeign.not_mem_lineText fun g hg => not_mem_of_mem_fields h (hf ▸ hg)

theorem sedDeletes_removeScript {e : Ere} (hr : IsRecord r) (hb : '[' ∉ r) (hbar : '|' ∉ r)
    (he : Ere.parse .posix (pattern r) = some e) (t : Text) :
    sedDeletes (removeScript r) t = sedFilter (fun l => !e.search l) t := by
  have hscript : deletes (removeScript r) = some e.search := by
    rw [removeScript, deletes_append (simple_pattern hr hb).1 (not_mem_bar_pattern hr hbar), he]
    rfl
  rw [sedDeletes, hscript]

theorem exact_of_selectable (hr : r ∈ records text) (hb : '[' ∉ r) (h : Selectable text r) :
    Exact text r := by
  have hrec := isRecord_of_mem_records hr
  obtain ⟨⟨e, he, hsearch⟩, e', he', hmatch⟩ := exists_parse hrec hb h.escaped
  have hthere : ∀ l ∈ lines text, (e.search l = true ↔ records l = [r]) := fun l hl => by
    rw [hsearch, ← h.laid l hl]
    refine ⟨fun hm => ((h.laid l hl).mp hm).records_eq hrec hm, fun hm => ?_⟩
    exact hm ▸ List.mem_singleton_self r
  have hline : ∀ l ∈ splitlines text, (e'.matchStart l = true ↔ recordOf l = some r) := fun l hl => by
    rw [hmatch, recordOf_eq_some_iff hrec]
    constructor
    · intro hf
      have hno : ';' ∉ l := fun hm => by
        have hmem : ';' ∈ (fields l).flatten := by
          rw [fields, fieldsBy_flatten]
          exact List.mem_filter.mpr ⟨hm, by decide⟩
        rw [hf] at hmem
        exact hrec.no_comment (mem_of_mem_flatten_fields hmem).1
      rwa [bare_eq_self hno]
    · intro hf
      -- the line `sed` reads holds the record too, so it is laid out and has no comment
      have hmem : ∃ x ∈ splitlines text, x = l ∧ recordOf x = some r :=
        ⟨l, hl, rfl, (recordOf_eq_some_iff hrec).mpr hf⟩
      obtain ⟨line, hline, x, hx, rfl, hxr⟩ :=
        (exists_splitlines_iff (fun hq => recordOf_nil_ne r hq.2) text).mp hmem
      have hlaid := (h.laid line hline).mp (mem_records.mpr ⟨x, hx, hxr⟩)
      rwa [bare_eq_self fun hm => hlaid.no_comment hrec (mem_of_mem_splitlines hx hm)] at hf
  have hrecords : ∀ l ∈ splitlines text, (records l = [r] ↔ recordOf l = some r) := fun l hl => by
    have hone := oneLine_of_mem_splitlines l hl
    by_cases hnil : l = []
    · rw [hnil]
      exact iff_of_false (List.cons_ne_nil _ _).symm (recordOf_nil_ne r)
    · rw [records, splitlines_of_oneLine hnil hone]
      cases hl : recordOf l <;> simp [hl]
  have hbar : '|' ∉ r := fun hm => h.escaped _ hm (by decide)
  refine ⟨⟨e, he, hthere⟩, ⟨e', he', fun l hl => (hline l hl).trans (hrecords l hl).symm⟩, ?_, ?_⟩
  · intro z server fileName hz x
    rw [zoneRecords_remoteDnsRemoveRecord hz, sedDeletes_removeScript hrec hb hbar he,
      mem_records_sedFilter]
    constructor
    · rintro ⟨l, hl, hkeep, hx⟩
      refine ⟨mem_records_lines.mpr ⟨l, hl, hx⟩, ?_⟩
      rintro rfl
      rw [(hsearch l).mpr ((h.laid l hl).mp hx)] at hkeep
      exact absurd hkeep (by decide)
    · rintro ⟨hx, hne⟩
      obtain ⟨l, hl, hx⟩ := mem_records_lines.mp hx
      refine ⟨l, hl, ?_, hx⟩
      cases hs : e.search l with
      | false => rfl
      | true =>
        rw [(hthere l hl).mp hs] at hx
        exact absurd (List.mem_singleton.mp hx) hne
  · intro z fileName hz
    obtain ⟨z', hz', hrest⟩ := zoneRecords_dnsRemoveRecord hz he'
    refine ⟨z', hz', fun x => ?_⟩
    rw [hrest, mem_records_dropMatched, mem_records]
    constructor
    · rintro ⟨l, hl, hkeep, hx⟩
      refine ⟨⟨l, hl, hx⟩, ?_⟩
      rintro rfl
      rw [(hline l hl).mpr hx] at hkeep
      exact absurd hkeep (by decide)
    · rintro ⟨⟨l, hl, hx⟩, hne⟩
      refine ⟨l, hl, ?_, hx⟩
      cases hm : e'.matchStart l with
      | false => rfl
      | true => exact absurd (Option.some.inj (hx.symm.trans ((hline l hl).mp hm))) hne

theorem mem_lineText {d : Ere.Dialect} {f g : Text} {fs : List Text} {c : Char} (hg : g ∈ f :: fs)
    (hc : c ∈ g) : c ∈ Ere.lineText d f fs := by
  have hlaid : ∀ gs : List Text, g ∈ gs → c ∈ Ere.laidText d gs := fun gs hgs => by
    induction gs with
    | nil => exact absurd hgs List.not_mem_nil
    | cons x xs ih =>
      refine List.mem_append_right _ (List.mem_cons_of_mem _ (List.mem_append.mpr ?_))
      rcases List.mem_cons.mp hgs with rfl | hgs
      · exact Or.inl (Ere.mem_quote hc)
      · exact Or.inr (ih hgs)
  refine List.mem_cons_of_mem _ (List.mem_append_right _ (List.mem_cons_of_mem _ (List.mem_append.mpr ?_)))
  rcases List.mem_cons.mp hg with rfl | hg
  · exact Or.inl (Ere.mem_quote hc)
  · exact Or.inr (hlaid fs hg)

/-- A line that holds a record holds its characters. -/
theorem mem_of_mem_records {l : Text} {c : Char} (hr : r ∈ records l) (hc : c ∈ r) (hne : c ≠ ' ') :
    c ∈ l := by
  obtain ⟨p, hp, hrec⟩ := mem_records.mp hr
  have hf := (recordOf_eq_some_iff (isRecord_of_recordOf hrec)).mp hrec
  rw [(isRecord_of_recordOf hrec).eq_join] at hc
  obtain ⟨f, hfm, hcf⟩ := (mem_join hc).resolve_left hne
  have hflat : c ∈ (fields (bare p)).flatten := List.mem_flatten.mpr ⟨f, hf ▸ hfm, hcf⟩
  exact mem_of_mem_splitlines hp (List.takeWhile_subset _ (mem_of_mem_flatten_fields hflat).1)

/-- **A record that is not escaped is not removed**: `sed` or `re` refuses the expression, or it
matches no line that the record stands in. -/
theorem escaped_of_exact (hr : r ∈ records text) (hb : '[' ∉ r) (h : Exact text r) :
    ∀ c ∈ r, c ∉ unescaped := by
  have hrec := isRecord_of_mem_records hr
  obtain ⟨hsimple, hsimple'⟩ := simple_pattern hrec hb
  obtain ⟨e, he, -⟩ := h.there
  obtain ⟨e', he', -⟩ := h.here
  obtain ⟨l, hl, hrl⟩ := mem_records_lines.mp hr
  have hgone : r ∉ records (sedDeletes (removeScript r) text) := fun hm => by
    have hz := h.removedThere (fun _ => some text) [] [] rfl r
    rw [zoneRecords_remoteDnsRemoveRecord rfl] at hz
    exact (hz.mp hm).2 rfl
  have hfield : ∀ c ∈ r, c ≠ ' ' → ∃ g ∈ fields r, c ∈ g := fun c hc hne => by
    rw [hrec.eq_join] at hc
    exact (mem_join hc).resolve_left hne
  obtain ⟨f, fs, hf⟩ := List.exists_cons_of_ne_nil hrec.fields_ne_nil
  have hbar : '|' ∉ r := fun hm => by
    obtain ⟨g, hg, hc⟩ := hfield _ hm (by decide)
    have hmem : '|' ∈ pattern r := by
      rw [pattern_eq_lineText hf]
      exact mem_lineText (hf ▸ hg) hc
    have hnone : deletes (removeScript r) = none := deletes_of_mem hsimple hmem
    rw [sedDeletes, hnone] at hgone
    exact hgone hr
  -- the line of the record is deleted, so the expression matches all of it
  have hmatch : Ere.Matches e true true l := by
    rw [sedDeletes_removeScript hrec hb hbar he, mem_records_sedFilter] at hgone
    have hs : e.search l = true := by
      by_contra hno
      exact hgone ⟨l, hl, by simpa using hno, hrl⟩
    obtain ⟨rs, rfl⟩ : ∃ rs, e = Ere.seq (.bol :: (rs ++ [.eol])) := by
      have hbars := not_mem_bar_pattern hrec hbar
      rw [pattern_eq_lineText hf] at he hsimple hbars
      refine Ere.exists_seq_of_parse hsimple (fun hm => hbars (List.mem_cons_of_mem _ hm)) ?_ he
      have hne : Ere.laidText .posix fs ≠ [] := fun e => by
        have hlast := Ere.getLast?_laidText (d := .posix) fs
        rw [e] at hlast
        exact absurd hlast (by simp)
      rw [List.getLast?_append_of_ne_nil _ (List.cons_ne_nil _ _), ← List.singleton_append,
        ← List.append_assoc, List.getLast?_append_of_ne_nil _ hne, Ere.getLast?_laidText]
    exact Ere.matches_of_search hs
  have hrepeat : ∀ c ∈ "*+?(\x7b^$".toList, c ∉ r := fun c hc hm => by
    have hspace : c ≠ ' ' := by
      rintro rfl
      exact absurd hc (by decide)
    exact (Ere.rejects_run hc hsimple (fun _ hg => absurd hg List.not_mem_nil) Ere.Frame.rejects_start
      he).not_mem hmatch (mem_of_mem_records hrl hm hspace)
  have hclose : ')' ∉ r := fun hm => by
    obtain ⟨g, hg, hc⟩ := hfield _ hm (by decide)
    have hopen : '(' ∉ localPattern r := by
      rw [localPattern_eq_lineText hf hb]
      have hforeign : Ere.Foreign .python '(' := by decide
      exact hforeign.not_mem_lineText fun x hx =>
        not_mem_of_mem_fields (hrepeat '(' (by decide)) (hf ▸ hx)
    refine Ere.not_mem_of_run hsimple' hopen he' ?_
    rw [localPattern_eq_lineText hf hb]
    exact mem_lineText (hf ▸ hg) hc
  intro c hc hu
  have hall : ∀ x ∈ unescaped, x ∈ "*+?(\x7b^$".toList ∨ x = '|' ∨ x = ')' := by decide
  rcases hall c hu with h' | rfl | rfl
  · exact hrepeat c h' hc
  · exact hbar hc
  · exact hclose hc

theorem selectable_of_exact (hr : r ∈ records text) (hb : '[' ∉ r) (h : Exact text r) :
    Selectable text r := by
  have hrec := isRecord_of_mem_records hr
  have hescaped := escaped_of_exact hr hb h
  obtain ⟨⟨e, he, hsearch⟩, -⟩ := exists_parse hrec hb hescaped
  have hbar : '|' ∉ r := fun hm => hescaped _ hm (by decide)
  refine ⟨hescaped, fun l hl => ⟨fun hm => ?_, fun hlaid => ?_⟩⟩
  · -- the record is gone, and so the line is deleted
    have hz := h.removedThere (fun _ => some text) [] [] rfl r
    rw [zoneRecords_remoteDnsRemoveRecord rfl, sedDeletes_removeScript hrec hb hbar he,
      mem_records_sedFilter] at hz
    rw [← hsearch]
    by_contra hno
    exact (hz.mp ⟨l, hl, by simpa using hno, hm⟩).2 rfl
  · obtain ⟨e', he'', hthere⟩ := h.there
    obtain rfl : e = e' := Option.some.inj (he.symm.trans he'')
    rw [(hthere l hl).mp ((hsearch l).mpr hlaid)]
    exact List.mem_singleton_self r

end Exact

end LabInABox.Dns
