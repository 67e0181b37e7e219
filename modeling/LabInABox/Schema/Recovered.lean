import LabInABox.Schema.Annotations

/-!
# Reading back a schema comment

What `parse_script` (`scripts/lab_schema`) makes of a comment block that is written in its grammar.

* The names that are read come from the lines that read as the line of a name and not as a heading. They
  are the declared ones only when every field's first line is such a line and no other is.
* The lines of a field are then read up to the first that reads as a heading; its words so far are pieces,
  and perhaps an annotation that is not closed.
* A description that is the declared one has all its words, so no line was left out, and no word that
  opens an annotation, so no bound was given.

Results:
* `read_field`: the lines of a field.
* `declared_of_clean`, `clean_of_declared`: which fields are read back.
* `recovers_iff`: exactly when a block is read back as it declares.
* `bounds_left_in_description`: a field with a bound.
-/

namespace LabInABox.Schema

open Text

/-! ## Lines that read as a heading, and names -/

section Lines

variable (other : Char → Bool)

instance (line : Text) : Decidable (ReadsAsHeading other line) := inferInstanceAs (Decidable (_ ∨ _))

theorem isWord_of_isSpace {c : Char} (h : isSpace c = true) : isWord other c = false := by
  have halpha : c.isAlphanum = false := by
    by_contra hc
    rw [Bool.not_eq_false] at hc
    rw [isSpace_of_isAlphanum hc] at h
    exact Bool.false_ne_true h
  have hunder : c ≠ '_' := by
    rintro rfl
    exact absurd h (by decide)
  simp [isWord, halpha, hunder, h]

/-- What follows a text and is no part of a word does not matter for the word at its start. -/
theorem startsWord_append {word z : Text} (hz : ∀ c ∈ z.head?, isWord other c = false ∧ c ∉ word) (t : Text) :
    startsWord other word (t ++ z) = startsWord other word t := by
  cases z with
  | nil => rw [List.append_nil]
  | cons c z =>
    obtain ⟨hc, hword⟩ := hz c rfl
    rw [startsWord, startsWord]
    by_cases hp : word <+: t
    · obtain ⟨u, rfl⟩ := hp
      rw [List.isPrefixOf_iff_prefix.mpr (List.prefix_append word u),
        List.isPrefixOf_iff_prefix.mpr ((List.prefix_append word u).trans (List.prefix_append _ _)),
        List.append_assoc, List.drop_left, List.drop_left]
      cases u with
      | nil => simp [hc]
      | cons d u => rfl
    · have hp' : ¬ word <+: t ++ c :: z := fun h => hp ((prefix_append_cons_iff z hword).mp h)
      rw [Bool.eq_false_iff.mpr (mt List.isPrefixOf_iff_prefix.mp hp),
        Bool.eq_false_iff.mpr (mt List.isPrefixOf_iff_prefix.mp hp')]
      rfl

theorem startsWord_self {word z : Text} (hz : ∀ c ∈ z.head?, isWord other c = false) :
    startsWord other word (word ++ z) = true := by
  rw [startsWord, List.isPrefixOf_iff_prefix.mpr (List.prefix_append word z), List.drop_left]
  cases z with
  | nil => rfl
  | cons c z => simp [hz c rfl]

theorem startsWord_head {word t : Text} (c : Char) (hword : word.head? = some c)
    (h : startsWord other word t = true) : ∃ ds, t = c :: ds := by
  rw [startsWord, Bool.and_eq_true] at h
  obtain ⟨u, rfl⟩ := List.isPrefixOf_iff_prefix.mp h.1
  obtain ⟨cs, rfl⟩ := List.head?_eq_some_iff.mp hword
  exact ⟨cs ++ u, rfl⟩

/-- Blanks around a text that begins with no blank. -/
theorem strip_words {b w : Text} (hb : Blank b) (hw : IsField isSpace w) (z : Text) :
    strip (b ++ (w ++ z)) = w ++ z.rdropWhile isSpace := by
  obtain ⟨hne, hall⟩ := hw
  obtain ⟨c, cs, hcs⟩ := List.exists_cons_of_ne_nil hne
  have hdrop : (b ++ (w ++ z)).dropWhile isSpace = w ++ z := by
    rw [List.dropWhile_append_of_pos hb, hcs, List.cons_append, List.dropWhile_cons_of_neg]
    rw [hall c (hcs ▸ List.mem_cons_self)]
    exact Bool.false_ne_true
  have hself : w.reverse.dropWhile isSpace = w.reverse := List.dropWhile_eq_self_iff.mpr fun hl => by
    rw [hall _ (List.mem_reverse.mp (List.getElem_mem hl))]
    exact Bool.false_ne_true
  rw [strip, hdrop, List.rdropWhile, List.reverse_append, List.dropWhile_append]
  split
  · rename_i hz
    rw [hself, List.reverse_reverse, List.rdropWhile, List.isEmpty_iff.mp hz, List.reverse_nil,
      List.append_nil]
  · rw [List.reverse_append, List.reverse_reverse, List.rdropWhile]

theorem isPrefix_rdropWhile (p : Char → Bool) (z : Text) : z.rdropWhile p <+: z :=
  ⟨z.rtakeWhile p, List.rdropWhile_append_rtakeWhile⟩

theorem head?_of_isPrefixOf {z z' : Text} (h : z' <+: z) : ∀ c ∈ z'.head?, c ∈ z.head? := by
  obtain ⟨u, rfl⟩ := h
  cases z' with
  | nil => exact fun c hc => absurd hc (by simp)
  | cons c z' => exact fun d hd => hd

/-- A name is no blank, and not empty. -/
structure IsName (name : Text) : Prop where
  head : ∃ c ∈ name.head?, (c.isAlpha || c = '_') = true
  chars : ∀ c ∈ name, isNameChar c = true

theorem isSpace_of_isNameChar {c : Char} (h : isNameChar c = true) : isSpace c = false := by
  rw [isNameChar, Bool.or_eq_true, Bool.or_eq_true, decide_eq_true_eq, decide_eq_true_eq] at h
  rcases h with (h | rfl) | rfl
  · exact isSpace_of_isAlphanum h
  · decide
  · decide

theorem IsName.isField {name : Text} (h : IsName name) : IsField isSpace name := by
  refine ⟨?_, fun c hc => isSpace_of_isNameChar (h.chars c hc)⟩
  rintro rfl
  obtain ⟨c, hc, -⟩ := h.head
  exact absurd hc (by simp)

theorem FieldText.isName (f : FieldText) : IsName f.name := ⟨f.head, f.nameChars⟩

/-- What stands between a name and its text: blanks, and the colon. -/
structure AfterName (z : Text) : Prop where
  head : ∀ c ∈ z.head?, isSpace c = true ∨ c = ':'

theorem AfterName.of_isPrefixOf {z z' : Text} (h : AfterName z) (hz : z' <+: z) : AfterName z' :=
  ⟨fun c hc => h.head c (head?_of_isPrefixOf hz c hc)⟩

theorem afterName_append {b : Text} (hb : Blank b) (t : Text) : AfterName (b ++ ':' :: t) := by
  refine ⟨fun c hc => ?_⟩
  cases b with
  | nil => exact Or.inr (Option.some.inj hc).symm
  | cons d b => exact Or.inl (hb c (Option.some.inj hc ▸ List.mem_cons_self))

/-- The text reads as a heading. -/
def HeadsLike (t : Text) : Prop :=
  startsWord other "MANDATORY".toList t = true ∨ startsOptional other t = true

theorem heading_chars : ∀ word ∈ ["MANDATORY".toList, "OPTIONAL".toList, "EXPERIMENTAL".toList],
    ':' ∉ word ∧ (word.all fun c => !isSpace c) = true := by decide

/-- **Whether the line of a name reads as a heading is a matter of the name.** -/
theorem headsLike_append {z : Text} (hz : AfterName z) (name : Text) :
    HeadsLike other (name ++ z) ↔ HeadsLike other name := by
  have hword : ∀ word ∈ ["MANDATORY".toList, "OPTIONAL".toList, "EXPERIMENTAL".toList],
      startsWord other word (name ++ z) = startsWord other word name := fun word hword => by
    obtain ⟨hcolon, hspace⟩ := heading_chars word hword
    refine startsWord_append other (fun c hc => ?_) name
    rcases hz.head c hc with hc | rfl
    · refine ⟨isWord_of_isSpace other hc, fun hm => ?_⟩
      have hfalse := List.all_eq_true.mp hspace c hm
      rw [hc] at hfalse
      exact absurd hfalse (by decide)
    · refine ⟨by simp [isWord], hcolon⟩
  rw [HeadsLike, HeadsLike, startsOptional, startsOptional, hword _ List.mem_cons_self,
    hword _ (List.mem_cons_of_mem _ List.mem_cons_self),
    hword _ (List.mem_cons_of_mem _ (List.mem_cons_of_mem _ List.mem_cons_self))]

/-! ## Lines -/

theorem uncomment_cons {t : Text} (h : ∃ c ∈ t.head?, isSpace c = true) : uncomment ('#' :: t) = strip t := by
  obtain ⟨c, hc, hspace⟩ := h
  obtain ⟨cs, rfl⟩ := List.head?_eq_some_iff.mp hc
  have hne : c ≠ '#' := by
    rintro rfl
    exact absurd hspace (by decide)
  rw [uncomment, List.dropWhile_cons_of_pos (by decide), List.dropWhile_cons_of_neg (by simpa using hne)]

/-- A name's line, by its parts. -/
theorem fieldLine_eq_some {line name rest : Text} (h : fieldLine line = some (name, rest)) :
    IsName name ∧ ∃ b, Blank b ∧ line = "#   ".toList ++ (name ++ (b ++ ':' :: rest)) := by
  rw [fieldLine] at h
  split at h
  · rename_i hmark
    obtain ⟨t, rfl⟩ := hmark
    have hdrop : ("#   ".toList ++ t).drop 4 = t := rfl
    simp only [hdrop] at h
    split at h
    · rename_i c rest' hhead hcolon
      split at h
      · rename_i hc
        obtain ⟨rfl, rfl⟩ := Prod.mk.inj (Option.some.inj h)
        refine ⟨⟨⟨c, hhead, hc⟩, fun d hd => List.mem_takeWhile_imp hd⟩,
          (t.dropWhile isNameChar).takeWhile isSpace, fun d hd => List.mem_takeWhile_imp hd, ?_⟩
        rw [← hcolon, List.takeWhile_append_dropWhile, List.takeWhile_append_dropWhile]
      · exact absurd h.symm (Option.some_ne_none _)
    · exact absurd h.symm (Option.some_ne_none _)
  · exact absurd h.symm (Option.some_ne_none _)

theorem fieldLine_of_name {name b : Text} (hname : IsName name) (hb : Blank b) (rest : Text) :
    fieldLine ("#   ".toList ++ (name ++ (b ++ ':' :: rest))) = some (name, rest) := by
  have hdrop : ("#   ".toList ++ (name ++ (b ++ ':' :: rest))).drop 4 = name ++ (b ++ ':' :: rest) := rfl
  have hchar : ∀ c cs, b ++ ':' :: rest = c :: cs → isNameChar c = false := by
    intro c cs hcs
    by_contra hc
    rw [Bool.not_eq_false] at hc
    rcases (afterName_append hb rest).head c (by rw [hcs]; rfl) with h | rfl
    · rw [isSpace_of_isNameChar hc] at h
      exact Bool.false_ne_true h
    · exact absurd hc (by decide)
  have htake : (name ++ (b ++ ':' :: rest)).takeWhile isNameChar = name := by
    rw [List.takeWhile_append_of_pos hname.chars]
    obtain ⟨c, cs, hcs⟩ := List.exists_cons_of_ne_nil (l := b ++ ':' :: rest) (by simp)
    rw [hcs, List.takeWhile_cons_of_neg (by rw [hchar c cs hcs]; exact Bool.false_ne_true), List.append_nil]
  have hrest : ((name ++ (b ++ ':' :: rest)).dropWhile isNameChar).dropWhile isSpace = ':' :: rest := by
    rw [List.dropWhile_append_of_pos hname.chars]
    obtain ⟨c, cs, hcs⟩ := List.exists_cons_of_ne_nil (l := b ++ ':' :: rest) (by simp)
    rw [hcs, List.dropWhile_cons_of_neg (by rw [hchar c cs hcs]; exact Bool.false_ne_true), ← hcs,
      List.dropWhile_append_of_pos hb, List.dropWhile_cons_of_neg (by decide)]
  obtain ⟨c, hc, halpha⟩ := hname.head
  rw [fieldLine, if_pos (List.prefix_append _ _)]
  simp only [hdrop, htake, hrest]
  rw [hc]
  simp only [if_pos halpha]

theorem readsAsHeading_iff {line name rest : Text} (h : fieldLine line = some (name, rest)) :
    ReadsAsHeading other line ↔ HeadsLike other name := by
  obtain ⟨hname, b, hb, rfl⟩ := fieldLine_eq_some h
  have huncomment : uncomment ("#   ".toList ++ (name ++ (b ++ ':' :: rest))) =
      name ++ (b ++ ':' :: rest).rdropWhile isSpace := by
    have hblank : Blank "   ".toList := by
      intro c hc
      have hall : ∀ c ∈ "   ".toList, isSpace c = true := by decide
      exact hall c hc
    exact (uncomment_cons ⟨' ', rfl, isSpace_space⟩).trans (strip_words hblank hname.isField _)
  rw [ReadsAsHeading, huncomment]
  exact headsLike_append other ((afterName_append hb rest).of_isPrefixOf (isPrefix_rdropWhile _ _)) name

/-! ## Names -/

/-- The name that is read on a line. -/
def nameRead (line : Text) : Option Text :=
  if ReadsAsHeading other line then none else (fieldLine line).map Prod.fst

theorem not_headsLike_of_nameRead {line name : Text} (h : nameRead other line = some name) :
    ¬ HeadsLike other name := by
  rw [nameRead] at h
  split at h
  · exact absurd h.symm (Option.some_ne_none _)
  · rename_i hline
    obtain ⟨⟨n, rest⟩, hfield, rfl⟩ := Option.map_eq_some_iff.mp h
    exact fun hheads => hline ((readsAsHeading_iff other hfield).mpr hheads)

/-- One line, and the names of the fields so far. -/
theorem names_readLine (r : Reading) (line : Text) :
    (readLine other r line).fields.map RawField.name = (nameRead other line).toList ++ r.fields.map RawField.name := by
  by_cases hheading : ReadsAsHeading other line
  · rw [nameRead, if_pos hheading]
    rcases hheading with h | h
    · simp only [readLine, if_pos h, Option.toList_none, List.nil_append]
    · by_cases hm : startsWord other "MANDATORY".toList (uncomment line) = true
      · simp only [readLine, if_pos hm, Option.toList_none, List.nil_append]
      · simp only [readLine, if_neg hm, if_pos h, Option.toList_none, List.nil_append]
  · rw [nameRead, if_neg hheading]
    rw [ReadsAsHeading, not_or] at hheading
    simp only [readLine, if_neg hheading.1, if_neg hheading.2]
    cases hfield : fieldLine line with
    | some p => rfl
    | none =>
      rw [Option.map_none, Option.toList_none, List.nil_append]
      dsimp only
      split
      · rfl
      · split
        · rename_i f fields _ hfields
          rw [hfields]
          rfl
        · rfl

/-- **The names that are read**, the last one first. -/
theorem names_read (lines : List Text) (r : Reading) :
    (lines.foldl (readLine other) r).fields.map RawField.name =
      (lines.filterMap (nameRead other)).reverse ++ r.fields.map RawField.name := by
  induction lines generalizing r with
  | nil => rfl
  | cons line lines ih =>
    rw [List.foldl_cons, ih, names_readLine, List.filterMap_cons]
    cases nameRead other line with
    | none => rfl
    | some name => simp

/-! ## The lines of a field -/

/-- The lines that continue a field are read up to one that reads as a heading. -/
def keptLines (more : List Text) : List Text :=
  more.takeWhile fun t => !decide (ReadsAsHeading other ('#' :: t))

/-- The words of a field that are read. -/
def FieldText.kept (f : FieldText) : List Text := fields f.first ++ (keptLines other f.more).flatMap fields

/-- A comment line that can continue a field. -/
def Continues (t : Text) : Prop := (∃ c ∈ t.head?, isSpace c = true) ∧ fields t ≠ []

variable {other} {r : Reading} {f : FieldText} {more : List Text} {t : Text}

theorem readLine_heading (h : ReadsAsHeading other t) :
    (readLine other r t).fields = r.fields ∧ (readLine other r t).current = false := by
  rcases h with h | h
  · simp only [readLine, if_pos h, and_self]
  · by_cases hm : startsWord other "MANDATORY".toList (uncomment t) = true
    · simp only [readLine, if_pos hm, and_self]
    · simp only [readLine, if_neg hm, if_pos h, and_self]

theorem readLine_name {line name rest : Text} (h : ¬ ReadsAsHeading other line)
    (hfield : fieldLine line = some (name, rest)) :
    readLine other r line =
      { r with fields := ⟨name, r.inMandatory, strip rest⟩ :: r.fields, current := true } := by
  rw [ReadsAsHeading, not_or] at h
  simp only [readLine, if_neg h.1, if_neg h.2, hfield]

theorem strip_ne_nil (h : Continues t) : strip t ≠ [] := fun hnil => by
  have hfields := fields_strip t
  rw [hnil] at hfields
  exact h.2 hfields.symm

/-- A line that continues the field that is read. -/
theorem readLine_continued {g : RawField} {gs : List RawField} (ht : Continues t)
    (h : ¬ ReadsAsHeading other ('#' :: t)) (hfield : fieldLine ('#' :: t) = none) (hc : r.current = true)
    (hr : r.fields = g :: gs) :
    readLine other r ('#' :: t) = { r with fields := g.continued (strip t) :: gs } := by
  have huncomment := uncomment_cons ht.1
  rw [ReadsAsHeading, not_or, huncomment] at h
  simp only [readLine, huncomment, if_neg h.1, if_neg h.2, hfield, if_neg (strip_ne_nil ht), hc, hr]

theorem readLine_ignored (h : ¬ ReadsAsHeading other t) (hfield : fieldLine t = none)
    (hc : r.current = false) : readLine other r t = { r with current := false } := by
  rw [ReadsAsHeading, not_or] at h
  simp only [readLine, if_neg h.1, if_neg h.2, hfield]
  split
  · rfl
  · rw [hc]
    cases r
    cases hc
    rfl

/-- No field is read, and none continued. -/
theorem read_ignored (hmore : ∀ t ∈ more, ReadsAsHeading other ('#' :: t) ∨ fieldLine ('#' :: t) = none) :
    ∀ {r : Reading}, r.current = false →
      ((more.map ('#' :: ·)).foldl (readLine other) r).fields = r.fields := by
  induction more with
  | nil => exact fun _ => rfl
  | cons t more ih =>
    intro r hc
    have hrest : ∀ {r : Reading}, r.current = false →
        ((more.map ('#' :: ·)).foldl (readLine other) r).fields = r.fields :=
      ih fun u hu => hmore u (List.mem_cons_of_mem _ hu)
    rw [List.map_cons, List.foldl_cons]
    by_cases hheading : ReadsAsHeading other ('#' :: t)
    · obtain ⟨hfields, hcurrent⟩ := readLine_heading (r := r) hheading
      rw [hrest hcurrent, hfields]
    · have hnone := (hmore t List.mem_cons_self).resolve_left hheading
      rw [readLine_ignored hheading hnone hc, hrest rfl]

theorem fields_continued (g : RawField) (t : Text) :
    fields (g.continued (strip t)).rest = fields g.rest ++ fields t := by
  have happend := fieldsBy_append_cons_sep isSpace_space g.rest (strip t)
  rw [RawField.continued, fields_strip]
  exact happend.trans (congrArg (fields g.rest ++ ·) (fields_strip t))

/-- **The lines that continue a field**, none of which reads as the line of a name. -/
theorem read_more (hcont : ∀ t ∈ more, Continues t)
    (hmore : ∀ t ∈ more, ReadsAsHeading other ('#' :: t) ∨ fieldLine ('#' :: t) = none) :
    ∀ (r : Reading) (g : RawField) (gs : List RawField), r.current = true → r.fields = g :: gs →
      ∃ rest, ((more.map ('#' :: ·)).foldl (readLine other) r).fields =
          ⟨g.name, g.inMandatory, rest⟩ :: gs ∧
        fields rest = fields g.rest ++ (keptLines other more).flatMap fields ∧
        ((∀ t ∈ more, ¬ ReadsAsHeading other ('#' :: t)) →
          ((more.map ('#' :: ·)).foldl (readLine other) r).inMandatory = r.inMandatory) := by
  induction more with
  | nil =>
    intro r g gs _ hr
    exact ⟨g.rest, hr, (List.append_nil _).symm, fun _ => rfl⟩
  | cons t more ih =>
    intro r g gs hc hr
    have hrest := fun u hu => hmore u (List.mem_cons_of_mem t hu)
    rw [List.map_cons, List.foldl_cons]
    by_cases hheading : ReadsAsHeading other ('#' :: t)
    · obtain ⟨hfields, hcurrent⟩ := readLine_heading (r := r) hheading
      refine ⟨g.rest, ?_, ?_, fun h => absurd hheading (h t List.mem_cons_self)⟩
      · rw [read_ignored hrest hcurrent, hfields, hr]
      · rw [keptLines, List.takeWhile_cons_of_neg (by simpa using hheading), List.flatMap_nil, List.append_nil]
    · have hnone := (hmore t List.mem_cons_self).resolve_left hheading
      have hstep := readLine_continued (hcont t List.mem_cons_self) hheading hnone hc hr
      obtain ⟨rest, hfields, hwords, hin⟩ := ih (fun u hu => hcont u (List.mem_cons_of_mem _ hu)) hrest
        (readLine other r ('#' :: t)) (g.continued (strip t)) gs
        (by rw [hstep]; exact hc) (by rw [hstep])
      refine ⟨rest, hfields, ?_, fun h => ?_⟩
      · have hkept : keptLines other (t :: more) = t :: keptLines other more :=
          List.takeWhile_cons_of_pos (by simpa using hheading)
        rw [hwords, fields_continued, hkept, List.flatMap_cons, List.append_assoc]
      · rw [hin fun u hu => h u (List.mem_cons_of_mem _ hu), hstep]

/-- The lines of a field are read as one. -/
structure OneField (other : Char → Bool) (f : FieldText) : Prop where
  name : ¬ ReadsAsHeading other f.nameLine
  more : ∀ t ∈ f.more, ReadsAsHeading other ('#' :: t) ∨ fieldLine ('#' :: t) = none

theorem FieldText.continues (f : FieldText) : ∀ t ∈ f.more, Continues t := fun t ht =>
  (f.moreLines t ht).2

theorem FieldText.fieldLine_nameLine (f : FieldText) : fieldLine f.nameLine = some (f.name, f.first) :=
  fieldLine_of_name f.isName f.padBlank.1 f.first

/-- **The lines of a field** are read up to one that reads as a heading. -/
theorem read_field (hf : OneField other f) (r : Reading) :
    ∃ rest, (f.lines.foldl (readLine other) r).fields = ⟨f.name, r.inMandatory, rest⟩ :: r.fields ∧
      fields rest = f.kept other ∧
      ((∀ line ∈ f.lines, ¬ ReadsAsHeading other line) →
        (f.lines.foldl (readLine other) r).inMandatory = r.inMandatory) := by
  have hstep := readLine_name (r := r) hf.name f.fieldLine_nameLine
  obtain ⟨rest, hfields, hwords, hin⟩ := read_more f.continues hf.more
    (readLine other r f.nameLine) ⟨f.name, r.inMandatory, strip f.first⟩ r.fields
    (by rw [hstep]) (by rw [hstep])
  refine ⟨rest, hfields, ?_, fun h => ?_⟩
  · rw [hwords, fields_strip, FieldText.kept]
  · rw [FieldText.lines, List.foldl_cons,
      hin fun t ht => h _ (List.mem_cons_of_mem _ (List.mem_map_of_mem ht)), hstep]

end Lines

/-! ## The words that are read -/

variable {k w : Text} {ws F K : List Text} {p : Piece} {P Q : List Piece} {f : FieldText}

/-- **The first words of pieces** are those of the first pieces, and perhaps some of the next one's. -/
theorem exists_cut : ∀ {pieces : List Piece} {K : List Text}, K <+: pieces.flatMap Piece.words →
    ∃ P Q F, pieces = P ++ Q ∧ K = wordsOf P F ∧
      (F = [] ∨ ∃ p Q', Q = p :: Q' ∧ F ≠ [] ∧ F <+: p.words ∧ F ≠ p.words)
  | [], K, h => ⟨[], [], [], rfl, List.prefix_nil.mp h, Or.inl rfl⟩
  | p :: ps, K, h => by
    rw [List.flatMap_cons] at h
    rcases List.prefix_or_prefix_of_prefix h (List.prefix_append p.words (ps.flatMap Piece.words)) with hK | hK
    · by_cases hall : K = p.words
      · exact ⟨[p], ps, [], rfl, by simp [wordsOf, hall], Or.inl rfl⟩
      · by_cases hnil : K = []
        · exact ⟨[], p :: ps, [], rfl, by rw [hnil]; rfl, Or.inl rfl⟩
        · exact ⟨[], p :: ps, K, rfl, rfl, Or.inr ⟨p, ps, rfl, hnil, hK, hall⟩⟩
    · obtain ⟨K', rfl⟩ := hK
      obtain ⟨P, Q, F, rfl, rfl, hF⟩ := exists_cut ((List.prefix_append_right_inj p.words).mp h)
      exact ⟨p :: P, Q, F, rfl, by simp [wordsOf], hF⟩

theorem mem_of_isPrefixOf_appendLast {v : List Text} {t : Text} (h : v <+: appendLast ws t)
    (hne : v ≠ appendLast ws t) (hw : w ∈ v) : w ∈ ws := by
  rw [appendLast] at h hne
  rcases List.prefix_concat_iff.mp h with h | h
  · exact absurd h hne
  · exact List.dropLast_subset ws (h.subset hw)

/-- What is read is written. -/
theorem written_of_cut (hvalid : ∀ q ∈ P ++ Q, q.Valid) (once : ((P ++ Q).filterMap Piece.kind).Nodup)
    (hF : F = [] ∨ ∃ p Q', Q = p :: Q' ∧ F ≠ [] ∧ F <+: p.words ∧ F ≠ p.words) : Written P F where
  valid q hq := hvalid q (List.mem_append_left _ hq)
  once := by
    rw [List.filterMap_append] at once
    exact (List.nodup_append.mp once).1
  rest := by
    refine hF.imp_right fun ⟨p, Q', hQ, hne, hpre, hnall⟩ => ?_
    subst hQ
    have hsingle : ∀ x : Text, ¬ (F <+: [] ++ [x] ∧ F ≠ [x]) := fun x ⟨h, hx⟩ => by
      rcases List.prefix_concat_iff.mp h with h | h
      · exact hx h
      · exact hne (List.prefix_nil.mp h)
    cases p with
    | word x => exact absurd ⟨hpre, hnall⟩ (hsingle x)
    | marker m => exact absurd ⟨hpre, hnall⟩ (hsingle (markerText m))
    | annot a =>
      obtain ⟨x, v, rfl⟩ := List.exists_cons_of_ne_nil hne
      obtain ⟨rfl, hv⟩ := List.cons_prefix_cons.mp hpre
      have hv' : v ≠ appendLast a.words [')'] := fun h => hnall (by rw [h]; rfl)
      obtain ⟨-, hvalue⟩ := isValue_words (hvalid (.annot a) (List.mem_append_right _ List.mem_cons_self))
      refine ⟨a.key, key_mem a, fun q hq hkind => ?_, v, rfl, fun w hw =>
        hvalue w (mem_of_isPrefixOf_appendLast hv hv' hw)⟩
      have hcons : (Piece.annot a :: Q').filterMap Piece.kind = a.key :: Q'.filterMap Piece.kind :=
        List.filterMap_cons_some rfl
      rw [List.filterMap_append, hcons] at once
      exact (List.nodup_append.mp once).2.2 a.key (List.mem_filterMap.mpr ⟨q, hq, hkind⟩) a.key
        List.mem_cons_self rfl

/-! ## Which fields are read back -/

theorem descriptionWords_append (P Q : List Piece) :
    descriptionWords (P ++ Q) = descriptionWords P ++ descriptionWords Q := List.filterMap_append

theorem plain_of_mem_descriptionWords (hvalid : ∀ q ∈ P, q.Valid) (hw : w ∈ descriptionWords P) : Plain w := by
  obtain ⟨q, hq, hqw⟩ := List.mem_filterMap.mp hw
  cases q with
  | word v => exact Option.some.inj hqw ▸ hvalid _ hq
  | marker m => exact absurd hqw.symm (Option.some_ne_none _)
  | annot a => exact absurd hqw.symm (Option.some_ne_none _)

/-- No bound is given. -/
def Unbounded (P : List Piece) : Prop := ∀ n, .annot (.min n) ∉ P ∧ .annot (.max n) ∉ P

theorem words_stay (h : Unbounded P) : (P.filter Piece.stays).flatMap Piece.words = descriptionWords P := by
  induction P with
  | nil => rfl
  | cons p P ih =>
    have hP : Unbounded P := fun n =>
      ⟨fun hm => (h n).1 (List.mem_cons_of_mem _ hm), fun hm => (h n).2 (List.mem_cons_of_mem _ hm)⟩
    by_cases hp : p.stays = true
    · rcases p.stays_iff.mp hp with ⟨w, rfl⟩ | ⟨n, rfl | rfl⟩
      · rw [List.filter_cons_of_pos hp, List.flatMap_cons, ih hP]
        rfl
      · exact absurd List.mem_cons_self (h n).1
      · exact absurd List.mem_cons_self (h n).2
    · rw [List.filter_cons_of_neg hp, ih hP]
      cases p with
      | word w => exact absurd (Piece.stays_iff _ |>.mpr (Or.inl ⟨w, rfl⟩)) hp
      | marker m => rfl
      | annot a => rfl

/-- **A field without bounds** whose words are all read is read back. -/
theorem declared_of_clean (h : Unbounded f.pieces) (b : Bool) {rest : Text}
    (hrest : fields rest = f.pieces.flatMap Piece.words) : finish ⟨f.name, b, rest⟩ = f.declared b := by
  have hwritten : Written f.pieces [] := ⟨f.valid, f.once, Or.inl rfl⟩
  rw [finish_eq hwritten f.name b (hrest.trans (List.append_nil _).symm), FieldText.declared, wordsOf,
    words_stay h, List.append_nil, declaredOf]

/-- A description that is declared leaves out no word, and no bound is in it. -/
theorem description_eq (h : Written P F) (hvalid : ∀ q ∈ Q, q.Valid)
    (he : join (wordsOf (P.filter Piece.stays) F) = join (descriptionWords (P ++ Q))) :
    F = [] ∧ Unbounded P ∧ descriptionWords Q = [] := by
  have hvalid' : ∀ q ∈ P ++ Q, q.Valid := fun q hq => (List.mem_append.mp hq).elim (h.valid q) (hvalid q)
  have hplain : ∀ w ∈ descriptionWords (P ++ Q), Plain w := fun w => plain_of_mem_descriptionWords hvalid'
  have hwords : wordsOf (P.filter Piece.stays) F = descriptionWords (P ++ Q) := by
    rw [← fields_join fun w hw => (h.filter Piece.stays).isField hw, he,
      fields_join fun w hw => (hplain w hw).field]
  have hopener : ∀ key ∈ keys, opener key ∉ wordsOf (P.filter Piece.stays) F := fun key hkey hm =>
    (hplain _ (hwords ▸ hm)).opens key hkey (List.infix_refl _)
  have hF : F = [] := by
    rcases h.rest with hF | ⟨key, hkey, -, v, rfl, -⟩
    · exact hF
    · exact absurd (List.mem_append_right _ List.mem_cons_self) (hopener key hkey)
  have hunbounded : Unbounded P := by
    have hnot : ∀ a : Annot, (Piece.annot a).stays = true → .annot a ∉ P := fun a hstays hm =>
      hopener a.key (key_mem a) (List.mem_append_left _ (List.mem_flatMap.mpr
        ⟨_, List.mem_filter.mpr ⟨hm, hstays⟩, List.mem_cons_self⟩))
    exact fun n => ⟨hnot _ (Piece.stays_iff _ |>.mpr (Or.inr ⟨n, Or.inl rfl⟩)),
      hnot _ (Piece.stays_iff _ |>.mpr (Or.inr ⟨n, Or.inr rfl⟩))⟩
  refine ⟨hF, hunbounded, ?_⟩
  rw [wordsOf, words_stay hunbounded, hF, List.append_nil, descriptionWords_append] at hwords
  have hlength := congrArg List.length hwords
  rw [List.length_append] at hlength
  exact List.eq_nil_of_length_eq_zero (by omega)

section Read

variable {other : Char → Bool} {t : Text} {items : List Item} {r : Reading}

/-- A line that reads as a heading begins with the letter of one. -/
theorem head_of_heading (h : HeadsLike other t) : ∃ c cs, t = c :: cs ∧ c ∈ ['M', 'O', 'E'] := by
  rcases h with h | h
  · obtain ⟨ds, rfl⟩ := startsWord_head other 'M' (by decide) h
    exact ⟨'M', ds, rfl, by decide⟩
  · rw [startsOptional, Bool.or_eq_true] at h
    rcases h with h | h
    · obtain ⟨ds, rfl⟩ := startsWord_head other 'O' (by decide) h
      exact ⟨'O', ds, rfl, by decide⟩
    · obtain ⟨ds, rfl⟩ := startsWord_head other 'E' (by decide) h
      exact ⟨'E', ds, rfl, by decide⟩

/-- The first word of a line that reads as a heading is no marker and opens no annotation. -/
theorem first_word_of_heading (ht : Continues t) (h : ReadsAsHeading other ('#' :: t)) {ws : List Text}
    (hfields : fields t = w :: ws) : (∀ m, w ≠ markerText m) ∧ ∀ key, w ≠ opener key := by
  have hheads : HeadsLike other (strip t) := by
    rw [← uncomment_cons ht.1]
    exact h
  obtain ⟨c, cs, hcs, hc⟩ := head_of_heading hheads
  have hspace : isSpace c = false := by
    have hall : ∀ c ∈ ['M', 'O', 'E'], isSpace c = false := by decide
    exact hall c hc
  obtain ⟨v, vs, hv⟩ := exists_fieldsBy_cons hspace cs
  rw [← fields_strip, hcs] at hfields
  obtain ⟨rfl, -⟩ := List.cons.inj (hv.symm.trans hfields)
  refine ⟨fun m hm => ?_, fun key hkey => ?_⟩
  · have hhead : c = '[' := by
      cases m <;> exact (List.cons.inj hm).1
    exact absurd hc (by rw [hhead]; decide)
  · exact absurd hc (by rw [(List.cons.inj hkey).1]; decide)

/-- **A field that is read back as declared** has all its lines read, and no bounds. -/
theorem clean_of_declared (hf : OneField other f) {b b' : Bool} {rest : Text}
    (hrest : fields rest = f.kept other) (he : finish ⟨f.name, b, rest⟩ = f.declared b') : Clean other f := by
  have hmore := List.takeWhile_append_dropWhile (p := fun t => !decide (ReadsAsHeading other ('#' :: t)))
    (l := f.more)
  rw [← keptLines] at hmore
  generalize hdropped : f.more.dropWhile (fun t => !decide (ReadsAsHeading other ('#' :: t))) = dropped at hmore
  have hwords : f.kept other ++ dropped.flatMap fields = f.pieces.flatMap Piece.words := by
    rw [FieldText.kept, List.append_assoc, ← List.flatMap_append, hmore, f.wrapped]
  obtain ⟨P, Q, F, hpieces, hK, hF⟩ := exists_cut (hwords ▸ List.prefix_append (f.kept other) _)
  have hvalid : ∀ q ∈ P ++ Q, q.Valid := hpieces ▸ f.valid
  have hwritten : Written P F := written_of_cut hvalid (hpieces ▸ f.once) hF
  have hdescription := congrArg CommentField.description he
  rw [finish_eq hwritten f.name b (hrest.trans hK), FieldText.declared, declaredOf, hpieces] at hdescription
  obtain ⟨rfl, hbounds, hQ⟩ :=
    description_eq hwritten (fun q hq => hvalid q (List.mem_append_right _ hq)) hdescription
  rw [hK, hpieces, wordsOf, List.append_nil, List.flatMap_append, List.append_cancel_left_eq] at hwords
  have hall : dropped = [] := by
    cases dropped with
    | nil => rfl
    | cons t ts =>
      have hheading : ReadsAsHeading other ('#' :: t) := by
        have hhead := List.head_dropWhile_not (p := fun t => !decide (ReadsAsHeading other ('#' :: t)))
          (l := f.more) (by rw [hdropped]; exact List.cons_ne_nil _ _)
        simpa [hdropped] using hhead
      have hcont := f.continues t (hmore ▸ List.mem_append_right _ List.mem_cons_self)
      obtain ⟨w, ws, hw⟩ := List.exists_cons_of_ne_nil hcont.2
      obtain ⟨hmarker, hopener⟩ := first_word_of_heading hcont hheading hw
      rw [List.flatMap_cons, hw] at hwords
      cases Q with
      | nil => exact absurd hwords (List.cons_ne_nil _ _)
      | cons p Q =>
        rw [List.flatMap_cons] at hwords
        cases p with
        | word v => exact absurd hQ (List.cons_ne_nil _ _)
        | marker m => exact absurd (List.cons.inj hwords).1 (hmarker m)
        | annot a => exact absurd (List.cons.inj hwords).1 (hopener a.key)
  have hnone : ∀ t ∈ f.more, ¬ ReadsAsHeading other ('#' :: t) := fun t ht => by
    simpa using List.dropWhile_eq_nil_iff.mp (hdropped.trans hall) t ht
  refine ⟨fun line hline => ?_, fun t ht => (hf.more t ht).resolve_left (hnone t ht), ?_⟩
  · rcases List.mem_cons.mp hline with rfl | hline
    · exact hf.name
    · obtain ⟨t, ht, rfl⟩ := List.mem_map.mp hline
      exact hnone t ht
  · have hnil : Q = [] := by
      rw [hall, List.flatMap_nil] at hwords
      cases Q with
      | nil => rfl
      | cons p Q => exact absurd (List.append_eq_nil_iff.mp hwords.symm).1 (Piece.words_ne_nil p)
    rw [hpieces, hnil, List.append_nil]
    exact hbounds

/-! ## The items of the block -/

/-- The fields of a block. -/
def fieldsOf (items : List Item) : List FieldText :=
  items.filterMap fun
    | .field f => some f
    | _ => none

variable (other r) in
/-- A heading is read as one. -/
theorem readLine_heading_line {note : Text} (h : Heading) (hnote : ∀ c ∈ note.head?, isSpace c = true) :
    ReadsAsHeading other ("# ".toList ++ (h.word ++ note)) ∧
      readLine other r ("# ".toList ++ (h.word ++ note)) =
        { r with inMandatory := decide (h = .mandatory), current := false } := by
  have hword : IsField isSpace h.word := by
    have hall : ∀ word ∈ ["MANDATORY".toList, "OPTIONAL".toList, "EXPERIMENTAL".toList],
        IsField isSpace word := by decide
    cases h with
    | mandatory => exact hall _ List.mem_cons_self
    | optional => exact hall _ (List.mem_cons_of_mem _ List.mem_cons_self)
    | experimental => exact hall _ (List.mem_cons_of_mem _ (List.mem_cons_of_mem _ List.mem_cons_self))
  have huncomment : uncomment ("# ".toList ++ (h.word ++ note)) = h.word ++ note.rdropWhile isSpace :=
    (uncomment_cons ⟨' ', rfl, isSpace_space⟩).trans (strip_words blank_space hword note)
  have hself : startsWord other h.word (uncomment ("# ".toList ++ (h.word ++ note))) = true := by
    rw [huncomment]
    refine startsWord_self other fun c hc => isWord_of_isSpace other (hnote c ?_)
    exact head?_of_isPrefixOf (isPrefix_rdropWhile isSpace note) c hc
  have hnot : h ≠ .mandatory →
      ¬ startsWord other "MANDATORY".toList (uncomment ("# ".toList ++ (h.word ++ note))) = true := by
    intro hne hstarts
    obtain ⟨ds, hds⟩ := startsWord_head other 'M' (by decide) hstarts
    rw [huncomment] at hds
    cases h with
    | mandatory => exact hne rfl
    | optional => exact absurd (List.cons.inj hds).1 (by decide)
    | experimental => exact absurd (List.cons.inj hds).1 (by decide)
  cases h with
  | mandatory =>
    refine ⟨Or.inl hself, ?_⟩
    have hm : startsWord other "MANDATORY".toList
      (uncomment ("# ".toList ++ (Heading.mandatory.word ++ note))) = true := hself
    simp only [readLine, if_pos hm]
    rfl
  | optional =>
    have ho : startsOptional other (uncomment ("# ".toList ++ (Heading.optional.word ++ note))) = true := by
      rw [startsOptional, Bool.or_eq_true]
      exact Or.inl hself
    refine ⟨Or.inr ho, ?_⟩
    simp only [readLine, if_neg (hnot (by decide)), if_pos ho]
    rfl
  | experimental =>
    have ho : startsOptional other (uncomment ("# ".toList ++ (Heading.experimental.word ++ note))) = true := by
      rw [startsOptional, Bool.or_eq_true]
      exact Or.inr hself
    refine ⟨Or.inr ho, ?_⟩
    simp only [readLine, if_neg (hnot (by decide)), if_pos ho]
    rfl

theorem uncomment_blank (hashes : Nat) : uncomment (List.replicate hashes '#') = [] := by
  rw [uncomment, List.dropWhile_eq_nil_iff.mpr fun c hc => decide_eq_true (List.eq_of_mem_replicate hc)]
  rfl

variable (other r) in
/-- A blank comment line ends the field. -/
theorem readLine_blank_line (hashes : Nat) :
    fieldLine (List.replicate hashes '#') = none ∧
      readLine other r (List.replicate hashes '#') = { r with current := false } := by
  have hfield : fieldLine (List.replicate hashes '#') = none := by
    rw [fieldLine, if_neg]
    intro hmark
    have hspace : ' ' ∈ List.replicate hashes '#' := hmark.subset (by decide)
    exact absurd (List.eq_of_mem_replicate hspace) (by decide)
  refine ⟨hfield, ?_⟩
  have hm : ¬ startsWord other "MANDATORY".toList [] = true := fun h => by
    obtain ⟨ds, hds⟩ := startsWord_head other 'M' (by decide) h
    exact List.cons_ne_nil _ _ hds.symm
  have ho : ¬ startsOptional other [] = true := fun h => by
    have hheads : HeadsLike other [] := Or.inr h
    obtain ⟨c, cs, hcs, -⟩ := head_of_heading hheads
    exact List.cons_ne_nil _ _ hcs.symm
  simp only [readLine, uncomment_blank, if_neg hm, if_neg ho, hfield, if_true]

/-- What stands behind a heading's word. -/
def Noted (items : List Item) : Prop :=
  ∀ h note, .heading h note ∈ items → ∀ c ∈ note.head?, isSpace c = true

theorem Noted.tail {item : Item} (h : Noted (item :: items)) : Noted items := fun hd note hm =>
  h hd note (List.mem_cons_of_mem _ hm)

/-- The names that are read are those of the fields' lines. -/
theorem names_items (hnotes : Noted items) :
    (items.flatMap Item.lines).filterMap (nameRead other) =
      (fieldsOf items).flatMap fun f => f.lines.filterMap (nameRead other) := by
  induction items with
  | nil => rfl
  | cons item items ih =>
    rw [List.flatMap_cons, List.filterMap_append, ih hnotes.tail]
    cases item with
    | heading h note =>
      have hheading := (readLine_heading_line other ⟨false, [], false⟩ h
        (hnotes h note List.mem_cons_self)).1
      have hnone : nameRead other ("# ".toList ++ (h.word ++ note)) = none := if_pos hheading
      rw [Item.lines, List.filterMap_cons_none hnone]
      rfl
    | blank hashes =>
      have hnone : nameRead other (List.replicate hashes '#') = none := by
        rw [nameRead, (readLine_blank_line other ⟨false, [], false⟩ hashes).1]
        split <;> rfl
      rw [Item.lines, List.filterMap_cons_none hnone]
      rfl
    | field f => rfl

theorem names_declared (items : List Item) : ∀ b, (declaredFields b items).map CommentField.name =
    (fieldsOf items).map FieldText.name := by
  induction items with
  | nil => exact fun _ => rfl
  | cons item items ih =>
    intro b
    cases item with
    | heading h note => exact ih _
    | blank hashes => exact ih b
    | field f => exact congrArg (f.name :: ·) (ih b)

theorem length_le_flatMap {fs : List FieldText} {g : FieldText → List Text} (h : ∀ f ∈ fs, g f ≠ []) :
    fs.length ≤ (fs.flatMap g).length := by
  induction fs with
  | nil => exact Nat.zero_le _
  | cons f fs ih =>
    have hpos := List.length_pos_of_ne_nil (h f List.mem_cons_self)
    have hrest := ih fun f' hf' => h f' (List.mem_cons_of_mem _ hf')
    rw [List.flatMap_cons, List.length_append, List.length_cons]
    omega

theorem length_eq_one {fs : List FieldText} {g : FieldText → List Text} (h : ∀ f ∈ fs, g f ≠ [])
    (hlength : (fs.flatMap g).length = fs.length) : ∀ f ∈ fs, (g f).length = 1 := by
  induction fs with
  | nil => exact fun f hf => absurd hf List.not_mem_nil
  | cons f fs ih =>
    have hpos := List.length_pos_of_ne_nil (h f List.mem_cons_self)
    have hrest := fun f' hf' => h f' (List.mem_cons_of_mem f hf')
    have hle := length_le_flatMap hrest
    rw [List.flatMap_cons, List.length_append, List.length_cons] at hlength
    intro f' hf'
    rcases List.mem_cons.mp hf' with rfl | hf'
    · omega
    · exact ih hrest (by omega) f' hf'

/-- **The names that are read are the declared ones** only if every field is read as one. -/
theorem oneField_of_names
    (hnames : (fieldsOf items).flatMap (fun f => f.lines.filterMap (nameRead other)) =
      (fieldsOf items).map FieldText.name) : ∀ f ∈ fieldsOf items, OneField other f := by
  have hname : ∀ f ∈ fieldsOf items, ¬ ReadsAsHeading other f.nameLine := fun f hf => by
    have hmem : f.name ∈ (fieldsOf items).map FieldText.name := List.mem_map_of_mem hf
    rw [← hnames] at hmem
    obtain ⟨f', -, hline⟩ := List.mem_flatMap.mp hmem
    obtain ⟨line, -, hread⟩ := List.mem_filterMap.mp hline
    rw [readsAsHeading_iff other f.fieldLine_nameLine]
    exact not_headsLike_of_nameRead other hread
  have hlines : ∀ f ∈ fieldsOf items, f.lines.filterMap (nameRead other) =
      f.name :: (f.more.map ('#' :: ·)).filterMap (nameRead other) := fun f hf => by
    have hread : nameRead other f.nameLine = some f.name := by
      rw [nameRead, if_neg (hname f hf), f.fieldLine_nameLine]
      rfl
    exact List.filterMap_cons_some hread
  have hone := @length_eq_one (fieldsOf items) (fun f => f.lines.filterMap (nameRead other))
    (fun f hf => by rw [hlines f hf]; exact List.cons_ne_nil _ _)
    (by rw [hnames, List.length_map])
  refine fun f hf => ⟨hname f hf, fun t ht => ?_⟩
  have hnil : (f.more.map ('#' :: ·)).filterMap (nameRead other) = [] := by
    have hlength := hone f hf
    rw [hlines f hf, List.length_cons] at hlength
    exact List.eq_nil_of_length_eq_zero (by omega)
  have hnone := List.filterMap_eq_nil_iff.mp hnil ('#' :: t) (List.mem_map_of_mem ht)
  by_cases hheading : ReadsAsHeading other ('#' :: t)
  · exact Or.inl hheading
  · rw [nameRead, if_neg hheading] at hnone
    exact Or.inr (Option.map_eq_none_iff.mp hnone)

/-- A field that is read, up to a line that reads as a heading. -/
def Took (other : Char → Bool) (f : FieldText) (g : RawField) : Prop :=
  g.name = f.name ∧ fields g.rest = f.kept other

/-- **The items of a block are read** in order. -/
theorem read_items (hnotes : Noted items) (h : ∀ f ∈ fieldsOf items, OneField other f) :
    ∀ r : Reading, ∃ out, ((items.flatMap Item.lines).foldl (readLine other) r).fields = out.reverse ++ r.fields ∧
      List.Forall₂ (Took other) (fieldsOf items) out ∧
      ((∀ f ∈ fieldsOf items, Clean other f) → out.map finish = declaredFields r.inMandatory items) := by
  induction items with
  | nil => exact fun r => ⟨[], rfl, List.Forall₂.nil, fun _ => rfl⟩
  | cons item items ih =>
    intro r
    rw [List.flatMap_cons, List.foldl_append]
    cases item with
    | heading hd note =>
      obtain ⟨-, hstep⟩ := readLine_heading_line other r hd
        (hnotes hd note List.mem_cons_self)
      obtain ⟨out, hout, htook, hclean⟩ := ih hnotes.tail h
        { r with inMandatory := decide (hd = .mandatory), current := false }
      exact ⟨out, by rw [Item.lines, List.foldl_cons, List.foldl_nil, hstep, hout], htook, hclean⟩
    | blank hashes =>
      obtain ⟨-, hstep⟩ := readLine_blank_line other r hashes
      obtain ⟨out, hout, htook, hclean⟩ := ih hnotes.tail h { r with current := false }
      exact ⟨out, by rw [Item.lines, List.foldl_cons, List.foldl_nil, hstep, hout], htook, hclean⟩
    | field f =>
      obtain ⟨rest, hfields, hwords, hin⟩ := read_field (h f List.mem_cons_self) r
      obtain ⟨out, hout, htook, hclean⟩ := ih hnotes.tail (fun f' hf' => h f' (List.mem_cons_of_mem _ hf'))
        (f.lines.foldl (readLine other) r)
      refine ⟨⟨f.name, r.inMandatory, rest⟩ :: out, ?_, List.Forall₂.cons ⟨rfl, hwords⟩ htook, fun hall => ?_⟩
      · rw [Item.lines, hout, hfields]
        simp
      · have hf : Clean other f := hall f List.mem_cons_self
        have hmore : keptLines other f.more = f.more := List.takeWhile_eq_self_iff.mpr fun t ht => by
          simpa using hf.lines _ (List.mem_cons_of_mem _ (List.mem_map_of_mem ht))
        have hdeclared : finish ⟨f.name, r.inMandatory, rest⟩ = f.declared r.inMandatory := by
          refine declared_of_clean hf.bounds r.inMandatory ?_
          rw [hwords, FieldText.kept, hmore, f.wrapped]
        rw [List.map_cons, hdeclared, hclean fun f' hf' => hall f' (List.mem_cons_of_mem _ hf'),
          hin hf.lines]
        rfl

/-- What is declared of each field. -/
theorem declared_fields (items : List Item) : ∀ b,
    List.Forall₂ (fun f c => ∃ b, c = FieldText.declared f b) (fieldsOf items) (declaredFields b items) := by
  induction items with
  | nil => exact fun _ => List.Forall₂.nil
  | cons item items ih =>
    intro b
    cases item with
    | heading h note => exact ih _
    | blank hashes => exact ih b
    | field f => exact List.Forall₂.cons ⟨b, rfl⟩ (ih b)

/-- The fields that are read are the declared ones: each is read back. -/
theorem clean_of_forall₂ {fs : List FieldText} {out : List RawField}
    (htook : List.Forall₂ (Took other) fs out)
    (hdeclared : List.Forall₂ (fun f c => ∃ b, c = FieldText.declared f b) fs (out.map finish))
    (h : ∀ f ∈ fs, OneField other f) : ∀ f ∈ fs, Clean other f := by
  induction htook with
  | nil => exact fun f hf => absurd hf List.not_mem_nil
  | cons hg htook ih =>
    rename_i f g fs out
    obtain ⟨⟨b, hb⟩, hrest⟩ := List.forall₂_cons.mp hdeclared
    intro f' hf'
    rcases List.mem_cons.mp hf' with rfl | hf'
    · obtain ⟨name, inMandatory, rest⟩ := g
      obtain ⟨rfl, hwords⟩ := hg
      exact clean_of_declared (h f' List.mem_cons_self) hwords hb
    · exact ih hrest (fun f'' hf'' => h f'' (List.mem_cons_of_mem _ hf'')) f' hf'

end Read

/-! ## The script -/

theorem mem_fieldsOf {items : List Item} : f ∈ fieldsOf items ↔ .field f ∈ items := by
  refine ⟨fun h => ?_, fun h => List.mem_filterMap.mpr ⟨_, h, rfl⟩⟩
  obtain ⟨item, hitem, hf⟩ := List.mem_filterMap.mp h
  cases item with
  | heading h note => exact absurd hf.symm (Option.some_ne_none _)
  | blank hashes => exact absurd hf.symm (Option.some_ne_none _)
  | field f' => exact Option.some.inj hf ▸ hitem

theorem oneLine_nameLine (f : FieldText) : OneLine f.nameLine := by
  have hmark : OneLine "#   ".toList := by decide
  have hrest : OneLine (':' :: f.first) := OneLine.cons (by decide) f.firstLine
  exact hmark.append ((OneLine.of_noSpace f.isName.isField.2).append (f.padBlank.2.append hrest))

/-- The lines of the block are comment lines, or empty. -/
theorem items_lines (s : Script) : ∀ l ∈ s.items.flatMap Item.lines, OneLine l ∧ inBlock l = true := by
  intro l hl
  obtain ⟨item, hitem, hl⟩ := List.mem_flatMap.mp hl
  cases item with
  | heading h note =>
    obtain rfl := List.mem_singleton.mp hl
    have hmark : OneLine "# ".toList := by decide
    have hword : OneLine h.word := by cases h <;> decide
    exact ⟨hmark.append (hword.append (s.notes h note hitem).1), rfl⟩
  | blank hashes =>
    obtain rfl := List.mem_singleton.mp hl
    refine ⟨fun c hc => ?_, ?_⟩
    · rw [List.eq_of_mem_replicate hc]
      decide
    · cases hashes <;> rfl
  | field f =>
    rcases List.mem_cons.mp hl with rfl | hl
    · exact ⟨oneLine_nameLine f, rfl⟩
    · obtain ⟨t, ht, rfl⟩ := List.mem_map.mp hl
      exact ⟨OneLine.cons (by decide) (f.moreLines t ht).1, rfl⟩

variable (other : Char → Bool)

/-- The fields of a script are those of its block. -/
theorem parseScript_fields (s : Script) : (parseScript other s.text).fields =
    (((s.items.flatMap Item.lines).foldl (readLine other) ⟨false, [], false⟩).fields.reverse).map finish := by
  have hitems := items_lines s
  have hsplit : splitlines s.text =
      s.preamble ++ s.header :: (s.items.flatMap Item.lines ++ s.after) := by
    refine splitlines_unlines fun l hl => ?_
    rcases List.mem_append.mp hl with hl | hl
    · exact (s.preambleLines l hl).1
    · rcases List.mem_cons.mp hl with rfl | hl
      · exact s.headerLine.1
      · exact (List.mem_append.mp hl).elim (fun hl => (hitems l hl).1) (s.afterLines l)
  have hheader : (splitlines s.text).dropWhile (fun line => !decide ("JSON section:".toList <:+: line)) =
      s.header :: (s.items.flatMap Item.lines ++ s.after) := by
    have hpreamble : ∀ l ∈ s.preamble, (!decide ("JSON section:".toList <:+: l)) = true := fun l hl => by
      rw [decide_eq_false (s.preambleLines l hl).2]
      rfl
    have hfound : ¬ (!decide ("JSON section:".toList <:+: s.header)) = true := by
      rw [decide_eq_true s.headerLine.2]
      exact Bool.false_ne_true
    rw [hsplit, List.dropWhile_append_of_pos hpreamble]
    exact List.dropWhile_cons_of_neg hfound
  have hblock : (s.items.flatMap Item.lines ++ s.after).takeWhile inBlock = s.items.flatMap Item.lines := by
    rw [List.takeWhile_append_of_pos fun l hl => (hitems l hl).2]
    have hafter : s.after.takeWhile inBlock = [] := by
      cases hafter : s.after with
      | nil => rfl
      | cons l ls =>
        have hends := s.ends l (by rw [hafter]; rfl)
        rw [List.takeWhile_cons_of_neg (by rw [hends]; exact Bool.false_ne_true)]
    rw [hafter, List.append_nil]
  simp only [parseScript, hheader, List.drop_one, List.tail_cons, readBlock, hblock]

/-- **Exactly when a comment is read back** as it declares. -/
theorem recovers_iff (s : Script) :
    Recovers other s ↔ ∀ f, .field f ∈ s.items → Clean other f := by
  have hnotes : Noted s.items := fun h note hm => (s.notes h note hm).2
  rw [Recovers, parseScript_fields]
  constructor
  · intro h f hf
    have hnames : (fieldsOf s.items).flatMap (fun f => f.lines.filterMap (nameRead other)) =
        (fieldsOf s.items).map FieldText.name := by
      have hread := names_read other (s.items.flatMap Item.lines) ⟨false, [], false⟩
      have hmap := congrArg (List.map CommentField.name) h
      rw [names_declared, List.map_map, List.map_reverse] at hmap
      rw [← names_items hnotes, ← hmap]
      have hname : (CommentField.name ∘ finish) = RawField.name := rfl
      rw [hname, hread]
      simp
    have hone := oneField_of_names hnames
    obtain ⟨out, hout, htook, -⟩ := read_items hnotes hone ⟨false, [], false⟩
    rw [hout, List.append_nil, List.reverse_reverse] at h
    have hdeclared := declared_fields s.items false
    rw [← h] at hdeclared
    exact clean_of_forall₂ htook hdeclared hone f (mem_fieldsOf.mpr hf)
  · intro h
    have hclean : ∀ f ∈ fieldsOf s.items, Clean other f := fun f hf => h f (mem_fieldsOf.mp hf)
    have hone : ∀ f ∈ fieldsOf s.items, OneField other f := fun f hf =>
      ⟨(hclean f hf).lines _ List.mem_cons_self, fun t ht => Or.inr ((hclean f hf).more t ht)⟩
    obtain ⟨out, hout, -, hdeclared⟩ := read_items hnotes hone ⟨false, [], false⟩
    rw [hout, List.append_nil, List.reverse_reverse]
    exact hdeclared hclean

/-! ## A field with a bound -/

theorem plain_of_list {t : Text} (h : IsField isSpace t ∧ (∀ key ∈ keys, ¬ opener key <:+: t) ∧
    ∀ m, ¬ markerText m <:+: t) : Plain t := ⟨h.1, h.2.1, h.2.2⟩

/-- A number of replicas. -/
def replicas : FieldText where
  name := "app_replicas".toList
  pad := [' ']
  pieces := [.word "Replicas".toList, .annot (.min 1)]
  first := " Replicas (min: 1)".toList
  more := []
  head := ⟨'a', by decide, by decide⟩
  nameChars := by decide
  padBlank := by
    refine ⟨blank_space, ?_⟩
    decide
  valid p hp := by
    rcases List.mem_cons.mp hp with rfl | hp
    · exact plain_of_list (by decide +kernel)
    · rw [List.mem_singleton.mp hp]
      trivial
  once := by decide
  wrapped := by decide
  firstLine := by decide
  moreLines _ ht := absurd ht List.not_mem_nil

/-- A script with this field alone. -/
def replicasScript : Script where
  preamble := []
  header := "# JSON section: \"app\"".toList
  items := [.field replicas]
  after := []
  preambleLines _ hl := absurd hl List.not_mem_nil
  headerLine := by decide +kernel
  notes _ _ hm := by
    rw [List.mem_singleton] at hm
    cases hm
  afterLines _ hl := absurd hl List.not_mem_nil
  ends _ hl := absurd hl (by simp)

/-- The bound is left in the description. -/
theorem bounds_left_in_description : ¬ ∀ (other : Char → Bool) (s : Script), Recovers other s := by
  intro h
  have hfields := h (fun _ => false) replicasScript
  have hne : (parseScript (fun _ => false) replicasScript.text).fields ≠
      declaredFields false replicasScript.items := by decide +kernel
  exact hne hfields

end LabInABox.Schema
