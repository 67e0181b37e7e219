import LabInABox.Ipv4
import LabInABox.Schema.Declared

/-!
# Taking the annotations out of a field

What `finish`, the end of `parse_script` (`scripts/lab_schema`), makes of the words written about a
field.

* The words are those of pieces, and perhaps of an annotation that is not closed, when the lines with the
  rest of it were not read (`Written`).
* Each stage looks for one kind of piece. What it deletes are the words of that piece, and the text that
  is left reads as the words of the others (`Reads`), with the blanks the deletion leaves at the ends.
* A bound is found, but nothing is deleted: its value stands after a blank, which the pattern of the
  deletion does not allow.

Results:
* `mem_words`: a word of a piece opens its annotation, is its marker, or is plain.
* `takeAnnotated_eq`, `takeBound_eq`: the stages.
* `finish_eq`: the field that is read from the words.
-/

namespace LabInABox.Schema

open Text

variable {k w t : Text} {ws F : List Text} {p : Piece} {a : Annot} {P Q : List Piece}

/-! ## Words -/

theorem key_mem (a : Annot) : a.key ∈ keys := by
  cases a with
  | default value => exact List.mem_cons_self
  | options values => exact List.mem_cons_of_mem _ List.mem_cons_self
  | pattern value => exact List.mem_of_getElem? (i := 2) rfl
  | min n => exact List.mem_of_getElem? (i := 3) rfl
  | max n => exact List.mem_of_getElem? (i := 4) rfl

theorem needle_opener (hk : k ∈ keys) : Needle (opener k) := by
  have hall : ∀ key ∈ keys, opener key ≠ [] ∧ ((opener key).all fun c => !isSpace c) = true := by decide
  obtain ⟨hne, hspace⟩ := hall k hk
  exact ⟨hne, fun c hc => by simpa using List.all_eq_true.mp hspace c hc⟩

theorem needle_marker (mandatory : Bool) : Needle (markerText mandatory) := by
  have hall : ∀ m, markerText m ≠ [] ∧ ((markerText m).all fun c => !isSpace c) = true := by decide
  obtain ⟨hne, hspace⟩ := hall mandatory
  exact ⟨hne, fun c hc => by simpa using List.all_eq_true.mp hspace c hc⟩

/-- A character that ends a word, and no opening text and no marker has. -/
theorem Plain.append (h : Plain w) {c : Char} (hc : isSpace c = false)
    (hopener : ∀ key ∈ keys, c ∉ opener key) (hmarker : ∀ m, c ∉ markerText m) : Plain (w ++ [c]) where
  field := by
    refine ⟨List.append_ne_nil_of_left_ne_nil h.field.1 _, fun x hx => ?_⟩
    rcases List.mem_append.mp hx with hx | hx
    · exact h.field.2 x hx
    · rw [List.mem_singleton.mp hx]
      exact hc
  opens key hk hr := by
    rcases (infix_append_cons_iff (hopener key hk) w []).mp hr with hr | hr
    · exact h.opens key hk hr
    · exact (needle_opener hk).ne_nil (List.infix_nil.mp hr)
  marks m hr := by
    rcases (infix_append_cons_iff (hmarker m) w []).mp hr with hr | hr
    · exact h.marks m hr
    · exact (needle_marker m).ne_nil (List.infix_nil.mp hr)

theorem Plain.comma (h : Plain w) : Plain (w ++ [',']) :=
  h.append (by decide) (by decide) (by decide)

theorem Plain.paren (h : Plain w) : Plain (w ++ [')']) :=
  h.append (by decide) (by decide) (by decide)

theorem plain_of_mem_appendLast {c : Char} (hadd : ∀ {w}, Plain w → Plain (w ++ [c])) (hne : ws ≠ [])
    (h : ∀ w ∈ ws, Plain w) (hw : w ∈ appendLast ws [c]) : Plain w := by
  rcases List.mem_append.mp hw with hw | hw
  · exact h w (List.dropLast_subset ws hw)
  · rw [List.mem_singleton.mp hw, List.getLastD_eq_getLast?, List.getLast?_eq_some_getLast hne]
    exact hadd (h _ (List.getLast_mem hne))

theorem mem_intText {n : Int} {c : Char} (hc : c ∈ intText n) : c = '-' ∨ c.isDigit = true := by
  rw [intText] at hc
  split at hc
  · exact (List.mem_cons.mp hc).imp_right (Nat.isDigit_of_mem_toDigits (by decide) (by decide))
  · exact Or.inr (Nat.isDigit_of_mem_toDigits (by decide) (by decide) hc)

theorem intText_ne_nil (n : Int) : intText n ≠ [] := by
  rw [intText]
  split
  · exact List.cons_ne_nil _ _
  · exact Nat.toDigits_ne_nil

theorem plain_intText (n : Int) : Plain (intText n) ∧ ')' ∉ intText n := by
  have hnot : ∀ c, c ≠ '-' → c.isDigit = false → c ∉ intText n := fun c h1 h2 hc =>
    (mem_intText hc).elim h1 fun hd => by rw [h2] at hd; exact Bool.false_ne_true hd
  refine ⟨⟨⟨intText_ne_nil n, fun c hc => ?_⟩, fun key _ hr => ?_, fun m hr => ?_⟩,
    hnot ')' (by decide) (by decide)⟩
  · rcases mem_intText hc with rfl | hd
    · decide
    · exact isSpace_of_isAlphanum (by rw [Char.isAlphanum, hd, Bool.or_true])
  · exact hnot '(' (by decide) (by decide) (hr.subset List.mem_cons_self)
  · refine hnot '[' (by decide) (by decide) (hr.subset ?_)
    cases m <;> decide

theorem optionWords_plain : ∀ {values : List (List Text)}, (∀ v ∈ values, IsValue v) →
    ∀ w ∈ optionWords values, Plain w ∧ ')' ∉ w
  | [], _, w, hw => absurd hw List.not_mem_nil
  | [v], h, w, hw => (h v List.mem_cons_self).2 w hw
  | v :: v' :: vs, h, w, hw => by
    obtain ⟨hne, hv⟩ := h v List.mem_cons_self
    rcases List.mem_append.mp hw with hw | hw
    · refine ⟨plain_of_mem_appendLast Plain.comma hne (fun w hw => (hv w hw).1) hw, ?_⟩
      rcases List.mem_append.mp hw with hw | hw
      · exact (hv w (List.dropLast_subset v hw)).2
      · rw [List.mem_singleton.mp hw, List.getLastD_eq_getLast?, List.getLast?_eq_some_getLast hne]
        intro hm
        rcases List.mem_append.mp hm with hm | hm
        · exact (hv _ (List.getLast_mem hne)).2 hm
        · exact absurd (List.mem_singleton.mp hm) (by decide)
    · exact optionWords_plain (fun v hv => h v (List.mem_cons_of_mem _ hv)) w hw

theorem optionWords_ne_nil : ∀ {values : List (List Text)}, values ≠ [] → (∀ v ∈ values, v ≠ []) →
    optionWords values ≠ []
  | [], h, _ => absurd rfl h
  | [v], _, h => h v List.mem_cons_self
  | v :: v' :: vs, _, _ => by simp [optionWords, appendLast]

/-- The words of a value that may be written. -/
theorem isValue_words (h : (Piece.annot a).Valid) : IsValue a.words := by
  cases a with
  | default value => exact h
  | options values =>
    exact ⟨optionWords_ne_nil h.1 fun v hv => (h.2 v hv).1.1, optionWords_plain fun v hv => (h.2 v hv).1⟩
  | pattern value => exact h
  | min n => exact ⟨List.cons_ne_nil _ _, fun w hw => List.mem_singleton.mp hw ▸ plain_intText n⟩
  | max n => exact ⟨List.cons_ne_nil _ _, fun w hw => List.mem_singleton.mp hw ▸ plain_intText n⟩

/-- **A word of a piece** opens its annotation, is its marker, or is plain. -/
theorem mem_words (hp : p.Valid) (hw : w ∈ p.words) :
    Plain w ∨ (∃ m, p = .marker m ∧ w = markerText m) ∨ ∃ a, p = .annot a ∧ w = opener a.key := by
  cases p with
  | word v => exact Or.inl (List.mem_singleton.mp hw ▸ hp)
  | marker m => exact Or.inr (Or.inl ⟨m, rfl, List.mem_singleton.mp hw⟩)
  | annot a =>
    rcases List.mem_cons.mp hw with rfl | hw
    · exact Or.inr (Or.inr ⟨a, rfl, rfl⟩)
    · obtain ⟨hne, hv⟩ := isValue_words hp
      exact Or.inl (plain_of_mem_appendLast Plain.paren hne (fun w hw => (hv w hw).1) hw)

theorem isField_of_mem_words (hp : p.Valid) (hw : w ∈ p.words) : IsField isSpace w := by
  rcases mem_words hp hw with h | ⟨m, -, rfl⟩ | ⟨a, -, rfl⟩
  · exact h.field
  · exact ⟨(needle_marker m).ne_nil, (needle_marker m).noSpace⟩
  · exact ⟨(needle_opener (key_mem a)).ne_nil, (needle_opener (key_mem a)).noSpace⟩

theorem not_opener_infix_marker : ∀ key ∈ keys, ∀ m, ¬ opener key <:+: markerText m := by decide +kernel

theorem not_marker_infix_opener : ∀ m, ∀ key ∈ keys, ¬ markerText m <:+: opener key := by decide +kernel

theorem eq_of_opener_isInfix : ∀ key ∈ keys, ∀ key' ∈ keys, opener key <:+: opener key' → key = key' := by
  decide +kernel

theorem marker_not_mem_keys : "marker".toList ∉ keys := by decide

/-- The pieces of other kinds have no words an annotation begins in. -/
theorem not_opener_infix_words (hp : p.Valid) (hk : k ∈ keys) (hkind : p.kind ≠ some k) (hw : w ∈ p.words) :
    ¬ opener k <:+: w := by
  rcases mem_words hp hw with h | ⟨m, -, rfl⟩ | ⟨a, rfl, rfl⟩
  · exact h.opens k hk
  · exact not_opener_infix_marker k hk m
  · exact fun h => hkind (congrArg some (eq_of_opener_isInfix k hk a.key (key_mem a) h).symm)

theorem not_marker_infix_words (hp : p.Valid) (hkind : p.kind ≠ some "marker".toList) (hw : w ∈ p.words)
    (m : Bool) : ¬ markerText m <:+: w := by
  rcases mem_words hp hw with h | ⟨m', rfl, rfl⟩ | ⟨a, -, rfl⟩
  · exact h.marks m
  · exact absurd rfl hkind
  · exact not_marker_infix_opener m a.key (key_mem a)

/-! ## What is written -/

/-- The words that are read of a field: pieces, and perhaps an annotation that is not closed. -/
structure Written (P : List Piece) (F : List Text) : Prop where
  valid : ∀ p ∈ P, p.Valid
  once : (P.filterMap Piece.kind).Nodup
  rest : F = [] ∨ ∃ k ∈ keys, (∀ p ∈ P, p.kind ≠ some k) ∧
    ∃ v, F = opener k :: v ∧ ∀ w ∈ v, Plain w ∧ ')' ∉ w

/-- The words, in order. -/
def wordsOf (P : List Piece) (F : List Text) : List Text := P.flatMap Piece.words ++ F

/-- The pieces of other kinds. -/
def without (k : Text) (P : List Piece) : List Piece := P.filter fun p => p.kind ≠ some k

namespace Written

theorem filter (h : Written P F) (q : Piece → Bool) : Written (P.filter q) F where
  valid p hp := h.valid p (List.mem_of_mem_filter hp)
  once := h.once.sublist (List.filter_sublist.filterMap _)
  rest := h.rest.imp_right fun ⟨k, hk, hkind, hv⟩ =>
    ⟨k, hk, fun p hp => hkind p (List.mem_of_mem_filter hp), hv⟩

theorem without (h : Written P F) (k : Text) : Written (without k P) F := h.filter _

theorem not_paren_mem (h : Written P F) (hw : w ∈ F) : ')' ∉ w := by
  rcases h.rest with rfl | ⟨k, hk, -, v, rfl, hv⟩
  · exact absurd hw List.not_mem_nil
  · rcases List.mem_cons.mp hw with rfl | hw
    · have hall : ∀ key ∈ keys, ')' ∉ opener key := by decide
      exact hall k hk
    · exact (hv w hw).2

theorem mem_rest (h : Written P F) (hw : w ∈ F) : Plain w ∨ ∃ k ∈ keys, w = opener k := by
  rcases h.rest with rfl | ⟨k, hk, -, v, rfl, hv⟩
  · exact absurd hw List.not_mem_nil
  · rcases List.mem_cons.mp hw with rfl | hw
    · exact Or.inr ⟨k, hk, rfl⟩
    · exact Or.inl (hv w hw).1

theorem mem_wordsOf (h : Written P F) (hw : w ∈ wordsOf P F) :
    Plain w ∨ (∃ m, w = markerText m) ∨ ∃ k ∈ keys, w = opener k := by
  rcases List.mem_append.mp hw with hw | hw
  · obtain ⟨p, hp, hw⟩ := List.mem_flatMap.mp hw
    exact (mem_words (h.valid p hp) hw).imp_right
      (Or.imp (fun ⟨m, _, hm⟩ => ⟨m, hm⟩) fun ⟨a, _, ha⟩ => ⟨a.key, key_mem a, ha⟩)
  · exact (h.mem_rest hw).imp_right Or.inr

theorem isField (h : Written P F) (hw : w ∈ wordsOf P F) : IsField isSpace w := by
  rcases h.mem_wordsOf hw with h | ⟨m, rfl⟩ | ⟨k, hk, rfl⟩
  · exact h.field
  · exact ⟨(needle_marker m).ne_nil, (needle_marker m).noSpace⟩
  · exact ⟨(needle_opener hk).ne_nil, (needle_opener hk).noSpace⟩

/-- Words around a piece that has its kind alone. -/
theorem not_opener_isInfix (h : Written P F) (hk : k ∈ keys) (hQ : ∀ p ∈ Q, p ∈ P ∧ p.kind ≠ some k) :
    ∀ w ∈ Q.flatMap Piece.words, ¬ opener k <:+: w := fun w hw => by
  obtain ⟨p, hp, hw⟩ := List.mem_flatMap.mp hw
  exact not_opener_infix_words (h.valid p (hQ p hp).1) hk (hQ p hp).2 hw

theorem not_opener_infix_rest (h : Written P F) (hk : k ∈ keys) (hmem : ∃ p ∈ P, p.kind = some k) :
    ∀ w ∈ F, ¬ opener k <:+: w := fun w hw hr => by
  rcases h.rest with rfl | ⟨k', hk', hkind, v, rfl, hv⟩
  · exact List.not_mem_nil hw
  · rcases List.mem_cons.mp hw with rfl | hw
    · obtain ⟨p, hp, hpk⟩ := hmem
      exact hkind p hp (hpk.trans (congrArg some (eq_of_opener_isInfix k hk k' hk' hr)))
    · exact (hv w hw).1.opens k hk hr

end Written

theorem findKey_eq_none (h : ∀ p ∈ P, p.kind ≠ some k) : findKey k P = none := by
  refine List.findSome?_eq_none_iff.mpr fun q hq => ?_
  have hq := h q hq
  cases q with
  | word v => rfl
  | marker m => rfl
  | annot a => exact if_neg fun he => hq (congrArg some he)

/-- A piece that has its kind alone. -/
structure Alone (k : Text) (P : List Piece) (before : List Piece) (p : Piece) (after : List Piece) : Prop where
  eq : P = before ++ p :: after
  kind : p.kind = some k
  others : ∀ q ∈ before ++ after, q ∈ P ∧ q.kind ≠ some k

theorem exists_alone (once : (P.filterMap Piece.kind).Nodup) (h : ∃ p ∈ P, p.kind = some k) :
    ∃ before p after, Alone k P before p after := by
  obtain ⟨p, hp, hpk⟩ := h
  obtain ⟨before, after, rfl⟩ := List.append_of_mem hp
  refine ⟨before, p, after, rfl, hpk, fun q hq => ⟨?_, fun hqk => ?_⟩⟩
  · rw [List.mem_append] at hq ⊢
    exact hq.imp_right (List.mem_cons_of_mem p)
  · rw [List.filterMap_append, List.filterMap_cons_some hpk, List.nodup_middle, List.nodup_cons,
      ← List.filterMap_append] at once
    exact once.1 (List.mem_filterMap.mpr ⟨q, hq, hqk⟩)

namespace Alone

variable {before after : List Piece}

theorem without_eq (h : Alone k P before p after) : without k P = before ++ after := by
  have hall : ∀ q ∈ before ++ after, decide (q.kind ≠ some k) = true := fun q hq =>
    decide_eq_true (h.others q hq).2
  rw [without, h.eq, List.filter_append, List.filter_cons_of_neg (by simp [h.kind]), ← List.filter_append,
    List.filter_eq_self.mpr hall]

theorem wordsOf_eq (h : Alone k P before p after) :
    wordsOf P F = before.flatMap Piece.words ++ (p.words ++ wordsOf after F) := by
  rw [wordsOf, h.eq, List.flatMap_append, List.flatMap_cons, wordsOf]
  simp only [List.append_assoc]

theorem wordsOf_without (h : Alone k P before p after) :
    wordsOf (without k P) F = before.flatMap Piece.words ++ wordsOf after F := by
  rw [wordsOf, h.without_eq, List.flatMap_append, List.append_assoc, wordsOf]

theorem findKey_eq (h : Alone k P before (.annot a) after) : findKey k P = some a := by
  have hbefore : findKey k before = none :=
    findKey_eq_none fun q hq => (h.others q (List.mem_append_left _ hq)).2
  rw [findKey] at hbefore ⊢
  rw [h.eq, List.findSome?_append, hbefore, Option.none_or, List.findSome?_cons]
  simp [show a.key = k from Option.some.inj h.kind]

end Alone

theorem without_eq_self (h : ∀ p ∈ P, p.kind ≠ some k) : without k P = P :=
  List.filter_eq_self.mpr fun p hp => decide_eq_true (h p hp)

/-! ## Searching and deleting an annotation -/

theorem join_appendLast (hne : ws ≠ []) (t : Text) : join (appendLast ws t) = join ws ++ t := by
  obtain ⟨init, z, rfl⟩ := (List.eq_nil_or_concat ws).resolve_left hne
  have hlast : appendLast (init.concat z) t = init ++ [z ++ t] := by
    simp [appendLast, List.getLastD_eq_getLast?]
  rw [hlast, List.concat_eq_append]
  by_cases hinit : init = []
  · rw [hinit, List.nil_append, List.nil_append, join_singleton, join_singleton]
  · rw [join_append hinit, join_append hinit, List.append_assoc]
    simp [lead]

theorem join_annotated (hne : ws ≠ []) (o : Text) (c : Char) :
    join (o :: appendLast ws [c]) = o ++ ((' ' :: join ws) ++ [c]) := by
  have hlast : appendLast ws [c] ≠ [] := by simp [appendLast]
  rw [join_cons, lead_eq_cons_join hlast, join_appendLast hne, List.cons_append]

theorem Piece.words_ne_nil (p : Piece) : p.words ≠ [] := by
  cases p <;> exact List.cons_ne_nil _ _

/-- What the brackets of an annotation enclose. -/
theorem enclosedAt_words (h : (Piece.annot a).Valid) (z : Text) :
    enclosedAt (opener a.key) ')' (join (Piece.annot a).words ++ z) = some (' ' :: join a.words) := by
  obtain ⟨hne, hv⟩ := isValue_words h
  have hbody : ')' ∉ ' ' :: join a.words := fun hm => by
    rcases List.mem_cons.mp hm with hm | hm
    · exact absurd hm (by decide)
    · rcases mem_join hm with hm | ⟨w, hw, hm⟩
      · exact absurd hm (by decide)
      · exact (hv w hw).2 hm
  have htext : join (Piece.annot a).words ++ z =
      opener a.key ++ ((' ' :: join a.words) ++ ')' :: z) := by
    rw [Piece.words, join_annotated hne]
    simp
  rw [htext]
  exact enclosedAt_append (List.cons_ne_nil _ _) hbody z

theorem not_isSpace_paren : isSpace '(' = false := by decide

/-- After blanks, an annotation has its length. -/
theorem annotationLength_words (h : (Piece.annot a).Valid) {g : Text} (hg : Blank g) (z : Text) :
    annotationLength a.key (fun _ => true) (g ++ (join (Piece.annot a).words ++ z)) =
      some (g ++ join (Piece.annot a).words).length := by
  obtain ⟨hne, -⟩ := isValue_words h
  have hwords := join_annotated hne (opener a.key) ')'
  have hopen : join (Piece.annot a).words ++ z =
      '(' :: (a.key ++ [':'] ++ ((' ' :: join a.words) ++ [')']) ++ z) := by
    rw [Piece.words, hwords]
    rfl
  have htake : (g ++ (join (Piece.annot a).words ++ z)).takeWhile isSpace = g := by
    rw [List.takeWhile_append_of_pos hg, hopen,
      List.takeWhile_cons_of_neg (by rw [not_isSpace_paren]; exact Bool.false_ne_true), List.append_nil]
  have hdrop : (g ++ (join (Piece.annot a).words ++ z)).dropWhile isSpace =
      join (Piece.annot a).words ++ z := by
    rw [List.dropWhile_append_of_pos hg, hopen,
      List.dropWhile_cons_of_neg (by rw [not_isSpace_paren]; exact Bool.false_ne_true)]
  simp only [annotationLength, htake, hdrop, enclosedAt_words h, Option.bind_some, if_true]
  rw [Piece.words, hwords]
  simp only [List.length_append, List.length_cons, List.length_nil]
  exact congrArg some (by omega)

theorem enclosedAt_none_of_not_isPrefixOf (h : ¬ opener k <+: t) : enclosedAt (opener k) ')' t = none :=
  enclosedAt_eq_none fun hp => absurd hp h

/-- An annotation that is not there, or not closed, is not found. -/
theorem Written.quiet (h : Written P F) (hk : k ∈ keys) (hkind : ∀ p ∈ P, p.kind ≠ some k)
    (ht : Reads t (wordsOf P F)) {s : Text} (hs : s <:+ t) : enclosedAt (opener k) ')' s = none := by
  have hP := h.not_opener_isInfix hk fun p hp => ⟨hp, hkind p hp⟩
  refine enclosedAt_eq_none fun hopen => ?_
  by_cases hF : F = []
  · have hoccurs := (ht.infix_iff (needle_opener hk)).mp (hopen.isInfix.trans hs.isInfix)
    obtain ⟨w, hw, hr⟩ := hoccurs
    rw [wordsOf, hF, List.append_nil] at hw
    exact absurd hr (hP w hw)
  · have hreads : Reads t (P.flatMap Piece.words ++ (F ++ [])) := by
      rwa [List.append_nil, ← wordsOf]
    obtain ⟨u, g, z, hc⟩ := hreads.split hF
    have hquiet : ')' ∉ g ++ (join F ++ z) := by
      intro hm
      rcases List.mem_append.mp hm with hm | hm
      · rcases hc.gap with rfl | ⟨rfl, -⟩
        · exact absurd (List.mem_singleton.mp hm) (by decide)
        · exact List.not_mem_nil hm
      · rcases List.mem_append.mp hm with hm | hm
        · rcases mem_join hm with hm | ⟨w, hw, hm⟩
          · exact absurd hm (by decide)
          · exact h.not_paren_mem hw hm
        · obtain ⟨b, hb, rfl⟩ := hc.after
          exact absurd (hb ')' hm) (by decide)
    rw [hc.text] at hs
    rcases List.suffix_or_suffix_of_suffix hs (List.suffix_append u _) with hs' | ⟨s', rfl⟩
    · exact fun hm => hquiet (hs'.subset hm)
    · by_cases hs' : s' = []
      · rw [hs']
        exact hquiet
      · obtain ⟨v, hv⟩ := hs
        have hsu : s' <:+ u := ⟨v, List.append_cancel_right (by rw [List.append_assoc, hv])⟩
        exact absurd hopen ((needle_opener hk).not_prefix_before
          (hc.before.not_isInfix (needle_opener hk) hP) hsu hs' hc.nil_or_gap)

/-- What an annotation that is written is found and deleted by. -/
structure Found (a : Annot) (P : List Piece) (F : List Text) (t u g z : Text) : Prop where
  cut : ∃ before after, Alone a.key P before (.annot a) after ∧
    Cut t (before.flatMap Piece.words) (Piece.annot a).words (wordsOf after F) u g z
  valid : (Piece.annot a).Valid
  before : ¬ opener a.key <:+: u
  after : ¬ opener a.key <:+: z

theorem Written.exists_found (h : Written P F) (hk : k ∈ keys) (hmem : ∃ p ∈ P, p.kind = some k)
    (ht : Reads t (wordsOf P F)) : ∃ a u g z, a.key = k ∧ Found a P F t u g z := by
  obtain ⟨before, p, after, hal⟩ := exists_alone h.once hmem
  cases p with
  | word w => exact absurd hal.kind.symm (Option.some_ne_none k)
  | marker m => exact absurd (Option.some.inj hal.kind ▸ hk) marker_not_mem_keys
  | annot a =>
    obtain rfl : a.key = k := Option.some.inj hal.kind
    rw [hal.wordsOf_eq] at ht
    obtain ⟨u, g, z, hc⟩ := ht.split (Piece.words_ne_nil _)
    have hn := needle_opener hk
    have hbefore := h.not_opener_isInfix hk fun q hq => hal.others q (List.mem_append_left _ hq)
    have hafter := h.not_opener_isInfix hk fun q hq => hal.others q (List.mem_append_right _ hq)
    refine ⟨a, u, g, z, rfl, ⟨before, after, hal, hc⟩,
      h.valid _ (hal.eq ▸ List.mem_append_right _ List.mem_cons_self), hc.before.not_isInfix hn hbefore, ?_⟩
    obtain ⟨b, hb, rfl⟩ := hc.after
    intro hr
    obtain ⟨w, hw, hr⟩ := (hn.infix_lead hb).mp hr
    rcases List.mem_append.mp hw with hw | hw
    · exact hafter w hw hr
    · exact h.not_opener_infix_rest hk hmem w hw hr

/-! ## The stages -/

/-- **A value is taken out**, and the other words are left. -/
theorem takeAnnotated_eq (h : Written P F) (hk : k ∈ keys) (ht : Reads t (wordsOf P F)) :
    ∃ t', takeAnnotated k t = ((findKey k P).map fun a => ' ' :: join a.words, t') ∧
      Reads t' (wordsOf (without k P) F) := by
  by_cases hmem : ∃ p ∈ P, p.kind = some k
  · obtain ⟨a, u, g, z, rfl, hf⟩ := h.exists_found hk hmem ht
    obtain ⟨before, after, hal, hc⟩ := hf.cut
    have hn := needle_opener hk
    have hne : join (Piece.annot a).words ≠ [] := by
      rw [Piece.words, join_cons]
      exact List.append_ne_nil_of_left_ne_nil hn.ne_nil _
    have hsearch : annotated a.key t = some (' ' :: join a.words) := by
      rw [annotated, hc.text,
        firstMatch_words hn (fun s => enclosedAt_none_of_not_isPrefixOf) hf.before hc.nil_or_gap]
      exact firstMatch_eq_some (List.append_ne_nil_of_left_ne_nil hne _) (enclosedAt_words hf.valid z)
    have hdelete : deleteMatches (annotationLength a.key fun _ => true) 0 t = u ++ z :=
      deleteMatches_words hn
        (fun s hs => by rw [annotationLength, enclosedAt_none_of_not_isPrefixOf hs]; rfl)
        (fun w hw => h.isField (hal.wordsOf_eq ▸ List.mem_append_left _ hw)) hc hf.before hf.after hne
        (annotationLength_words hf.valid hc.blank_gap z)
    refine ⟨u ++ z, ?_, ?_⟩
    · rw [takeAnnotated, hsearch, hal.findKey_eq, hdelete]
      rfl
    · rw [hal.wordsOf_without]
      exact hc.reads
  · push Not at hmem
    refine ⟨t, ?_, by rwa [without_eq_self hmem]⟩
    rw [takeAnnotated, annotated, firstMatch_eq_none fun s _ hs => h.quiet hk hmem ht hs,
      findKey_eq_none hmem]
    rfl

/-! ### Bounds -/

theorem isSpace_of_isDecimal {c : Char} (h : isDecimal c = true) : isSpace c = false := by
  obtain ⟨z, hz, hc⟩ := List.any_eq_true.mp h
  -- no block of ten digits meets the blanks
  have hzeros : ∀ z ∈ zeros, (33 ≤ z ∧ z + 10 ≤ 0x85 ∨ 0xA1 ≤ z) ∧
      (z + 10 ≤ 0x1680 ∨ 0x1681 ≤ z) ∧ (z + 10 ≤ 0x2000 ∨ 0x3001 ≤ z) := by decide
  have hblock := hzeros z hz
  simp only [Bool.and_eq_true, decide_eq_true_eq] at hc
  simp only [isSpace, Bool.or_eq_false_iff, Bool.and_eq_false_iff, decide_eq_false_iff_not,
    beq_eq_false_iff_ne]
  omega

theorem digits_toDigits (m : Nat) : ∀ c ∈ Nat.toDigits 10 m, c.isDigit = true := fun _ =>
  Nat.isDigit_of_mem_toDigits (by decide) (by decide)

theorem parseNat_toDigits (m : Nat) : parseNat (Nat.toDigits 10 m) = some m := by
  rw [parseNat_of_isDigit Nat.toDigits_ne_nil (digits_toDigits m), Nat.ofDigitChars_ten_toDigits]

/-- **A number that is written is read.** -/
theorem parseInt_intText (n : Int) : parseInt (intText n) = some n := by
  have hstrip : ((intText n).dropWhile intSpace).rdropWhile intSpace = intText n := by
    have hspace : ∀ c ∈ intText n, intSpace c = false := fun c hc => by
      rw [intSpace, (plain_intText n).1.field.2 c hc, Bool.false_and]
    have hdrop : (intText n).dropWhile intSpace = intText n := List.dropWhile_eq_self_iff.mpr fun hl => by
      rw [hspace _ (List.getElem_mem hl)]
      exact Bool.false_ne_true
    rw [hdrop]
    exact List.rdropWhile_eq_self_iff.mpr fun hne => by
      rw [hspace _ (List.getLast_mem hne)]
      exact Bool.false_ne_true
  rw [parseInt, hstrip]
  by_cases hn : n < 0
  · simp only [intText, if_pos hn, parseNat_toDigits, Option.map_some, Option.some.injEq,
      Int.ofNat_eq_natCast]
    omega
  · have hdigits := digits_toDigits n.natAbs
    have hparse := parseNat_toDigits n.natAbs
    obtain ⟨c, cs, hcs⟩ := List.exists_cons_of_ne_nil (Nat.toDigits_ne_nil (b := 10) (n := n.natAbs))
    rw [intText, if_neg hn, hcs]
    rw [hcs] at hdigits hparse
    have hc := hdigits c List.mem_cons_self
    split
    · rename_i heq
      rw [(List.cons.inj heq).1] at hc
      exact absurd hc (by decide)
    · rename_i heq
      rw [(List.cons.inj heq).1] at hc
      exact absurd hc (by decide)
    · rw [hparse, Option.map_some, Option.some.injEq, Int.ofNat_eq_natCast]
      omega

theorem isInteger_intText (n : Int) : isInteger (intText n) = true := by
  have hall : (Nat.toDigits 10 n.natAbs).all isDecimal = true :=
    List.all_eq_true.mpr fun c hc => (digitValue_of_isDigit (digits_toDigits _ c hc)).1
  have hne : Nat.toDigits 10 n.natAbs ≠ [] := Nat.toDigits_ne_nil
  rw [intText]
  split
  · rw [isInteger, hall, Bool.and_true]
    exact decide_eq_true hne
  · rw [isInteger.eq_2, hall, Bool.and_true]
    · exact decide_eq_true hne
    · intro cs hcs
      have hminus := digits_toDigits n.natAbs '-' (hcs ▸ List.mem_cons_self)
      exact absurd hminus (by decide)

/-- A number begins with no blank. -/
theorem exists_of_isInteger {t : Text} (h : isInteger t = true) :
    ∃ c cs, t = c :: cs ∧ isSpace c = false := by
  cases t with
  | nil => exact absurd h (by decide)
  | cons c cs =>
    refine ⟨c, cs, rfl, ?_⟩
    by_cases hc : c = '-'
    · rw [hc]
      decide
    · rw [isInteger.eq_2 (c :: cs) (by rintro ds hds; exact hc (List.cons.inj hds).1),
        Bool.and_eq_true, List.all_cons, Bool.and_eq_true] at h
      exact isSpace_of_isDecimal h.2.1

/-- **What is enclosed after a blank is not deleted.** -/
theorem Written.not_deleted (h : Written P F) (hk : k ∈ keys) (ht : Reads t (wordsOf P F)) {s : Text}
    (hs : s <:+ t) : annotationLength k isInteger s = none := by
  rw [annotationLength, Option.bind_eq_none_iff]
  intro body hbody
  refine if_neg fun hint => ?_
  obtain ⟨c, cs, rfl, hc⟩ := exists_of_isInteger hint
  -- the opening text and the first character of the number stand in a word
  have hopen : opener k ++ [c] <+: s.dropWhile isSpace := by
    rw [enclosedAt] at hbody
    split at hbody
    · rename_i hcond
      obtain ⟨r, hr⟩ := hcond.1
      rw [← hr, List.drop_left] at hbody
      rw [← hr, List.prefix_append_right_inj]
      have htake : [c] ++ cs <+: r := by
        rw [List.singleton_append, ← Option.some.inj hbody]
        exact List.takeWhile_prefix _
      exact (List.prefix_append [c] cs).trans htake
    · exact absurd hbody (Option.some_ne_none _).symm
  have hn := needle_opener hk
  have hneedle : Needle (opener k ++ [c]) := by
    refine ⟨List.append_ne_nil_of_left_ne_nil hn.ne_nil _, fun x hx => ?_⟩
    rcases List.mem_append.mp hx with hx | hx
    · exact hn.noSpace x hx
    · rw [List.mem_singleton.mp hx]
      exact hc
  have hoccurs := hopen.isInfix.trans ((List.dropWhile_suffix _).trans hs).isInfix
  obtain ⟨w, hw, hr⟩ := (ht.infix_iff hneedle).mp hoccurs
  have hrk := (List.prefix_append (opener k) [c]).isInfix.trans hr
  rcases h.mem_wordsOf hw with hplain | ⟨m, rfl⟩ | ⟨k', hk', rfl⟩
  · exact hplain.opens k hk hrk
  · exact not_opener_infix_marker k hk m hrk
  · obtain rfl := eq_of_opener_isInfix k hk k' hk' hrk
    have hlength := hr.length_le
    rw [List.length_append, List.length_singleton] at hlength
    omega

/-- **A bound is found, and stays in the text.** -/
theorem takeBound_eq (h : Written P F) (hk : k = "min".toList ∨ k = "max".toList)
    (ht : Reads t (wordsOf P F)) : takeBound k t = ((findKey k P).bind Annot.number, t) := by
  have hkeys : k ∈ keys := by
    rcases hk with rfl | rfl <;> decide
  have hdelete : deleteMatches (annotationLength k isInteger) 0 t = t :=
    deleteMatches_eq_self fun s _ hs => h.not_deleted hkeys ht hs
  by_cases hmem : ∃ p ∈ P, p.kind = some k
  · obtain ⟨a, u, g, z, rfl, hf⟩ := h.exists_found hkeys hmem ht
    obtain ⟨before, after, hal, hc⟩ := hf.cut
    obtain ⟨n, hwords, hnumber⟩ : ∃ n, a.words = [intText n] ∧ a.number = some n := by
      cases a with
      | min n => exact ⟨n, rfl, rfl⟩
      | max n => exact ⟨n, rfl, rfl⟩
      | default v => exact absurd (show "default".toList = "min".toList ∨ "default".toList = "max".toList from hk) (by decide)
      | options v => exact absurd (show "options".toList = "min".toList ∨ "options".toList = "max".toList from hk) (by decide)
      | pattern v => exact absurd (show "pattern".toList = "min".toList ∨ "pattern".toList = "max".toList from hk) (by decide)
    have hn := needle_opener hkeys
    have hne : join (Piece.annot a).words ≠ [] := by
      rw [Piece.words, join_cons]
      exact List.append_ne_nil_of_left_ne_nil hn.ne_nil _
    have hvalue : (' ' :: join a.words).dropWhile isSpace = intText n := by
      obtain ⟨c, cs, hcs⟩ := List.exists_cons_of_ne_nil (intText_ne_nil n)
      have hspace := (plain_intText n).1.field.2
      rw [hwords, join_singleton, List.dropWhile_cons_of_pos isSpace_space]
      rw [hcs] at hspace ⊢
      rw [List.dropWhile_cons_of_neg (by rw [hspace c List.mem_cons_self]; exact Bool.false_ne_true)]
    have hsearch : boundText a.key t = some (intText n) := by
      rw [boundText, hc.text,
        firstMatch_words hn (fun s hs => by rw [enclosedAt_none_of_not_isPrefixOf hs]; rfl) hf.before
          hc.nil_or_gap]
      refine firstMatch_eq_some (List.append_ne_nil_of_left_ne_nil hne _) ?_
      rw [enclosedAt_words hf.valid, Option.bind_some, hvalue, if_pos (isInteger_intText n)]
    rw [takeBound, hsearch, hal.findKey_eq, Option.bind_some, hnumber, hdelete]
    exact congrArg (·, t) (parseInt_intText n)
  · push Not at hmem
    have hsearch : boundText k t = none := firstMatch_eq_none fun s _ hs => by
      rw [h.quiet hkeys hmem ht hs]
      rfl
    rw [takeBound, hsearch, findKey_eq_none hmem]
    rfl

/-! ### Markers -/

theorem markerLength_eq_none (h : ∀ m, ¬ markerText m <+: t) : markerLength t = none := by
  have hopt : ¬ "[OPTIONAL]".toList <+: t := h false
  have hman : ¬ "[MANDATORY]".toList <+: t := h true
  rw [markerLength, if_neg hopt, if_neg hman]

theorem markerLength_marker (m : Bool) (z : Text) :
    markerLength (markerText m ++ z) = some (markerText m ++ z.takeWhile isSpace).length := by
  have hdrop : (markerText m ++ z).drop (markerText m).length = z := List.drop_left
  cases m with
  | false =>
    have hopt : "[OPTIONAL]".toList <+: markerText false ++ z := List.prefix_append _ _
    rw [markerLength, if_pos hopt, List.length_append]
    exact congrArg (fun r => some ((markerText false).length + (List.takeWhile isSpace r).length)) hdrop
  | true =>
    have hopt : ¬ "[OPTIONAL]".toList <+: markerText true ++ z := fun hp =>
      absurd (List.prefix_of_prefix_length_le hp (List.prefix_append _ z) (by decide))
        (by decide)
    have hman : "[MANDATORY]".toList <+: markerText true ++ z := List.prefix_append _ _
    rw [markerLength, if_neg hopt, if_pos hman, List.length_append]
    exact congrArg (fun r => some ((markerText true).length + (List.takeWhile isSpace r).length)) hdrop

theorem reads_join (ws : List Text) : Reads (join ws) ws :=
  ⟨join ws, [], Or.inr rfl, blank_nil, (List.append_nil _).symm⟩

theorem Written.not_marker_isInfix (h : Written P F)
    (hQ : ∀ p ∈ Q, p ∈ P ∧ p.kind ≠ some "marker".toList) (m : Bool) :
    ∀ w ∈ wordsOf Q F, ¬ markerText m <:+: w := fun w hw => by
  rcases List.mem_append.mp hw with hw | hw
  · obtain ⟨p, hp, hw⟩ := List.mem_flatMap.mp hw
    exact not_marker_infix_words (h.valid p (hQ p hp).1) (hQ p hp).2 hw m
  · rcases h.mem_rest hw with hplain | ⟨k, hk, rfl⟩
    · exact hplain.marks m
    · exact not_marker_infix_opener m k hk

/-- **The marker is deleted**, with the blanks behind it. -/
theorem reads_deleteMarkers (h : Written P F) :
    Reads (deleteMatches markerLength 0 (join (wordsOf P F))) (wordsOf (without "marker".toList P) F) := by
  by_cases hmem : ∃ p ∈ P, p.kind = some "marker".toList
  · obtain ⟨before, p, after, hal⟩ := exists_alone h.once hmem
    obtain ⟨m, rfl⟩ : ∃ m, p = .marker m := by
      cases p with
      | word w => exact absurd hal.kind.symm (Option.some_ne_none _)
      | marker m => exact ⟨m, rfl⟩
      | annot a => exact absurd (Option.some.inj hal.kind ▸ key_mem a) marker_not_mem_keys
    have hbefore : ∀ m', ∀ w ∈ before.flatMap Piece.words, ¬ markerText m' <:+: w := fun m' w hw => by
      refine h.not_marker_isInfix (Q := before) (fun q hq => hal.others q (List.mem_append_left _ hq)) m' w ?_
      exact List.mem_append_left _ hw
    have hafter := h.not_marker_isInfix (Q := after) fun q hq => hal.others q (List.mem_append_right _ hq)
    have hreads := reads_join (wordsOf P F)
    rw [hal.wordsOf_eq] at hreads
    obtain ⟨u, g, z, hc⟩ := hreads.split (Piece.words_ne_nil _)
    have hfield : ∀ w ∈ wordsOf after F, IsField isSpace w := fun w hw =>
      h.isField (hal.wordsOf_eq ▸ List.mem_append_right _ (List.mem_append_right _ hw))
    have hu : ∀ m', ¬ markerText m' <:+: u := fun m' =>
      hc.before.not_isInfix (needle_marker m') (hbefore m')
    have hz : ∀ m', ¬ markerText m' <:+: z := fun m' hr => by
      obtain ⟨b, hb, rfl⟩ := hc.after
      obtain ⟨w, hw, hr⟩ := ((needle_marker m').infix_lead hb).mp hr
      exact hafter m' w hw hr
    have hmarker : join (Piece.marker m).words ++ z =
        (markerText m ++ z.takeWhile isSpace) ++ z.dropWhile isSpace := by
      rw [Piece.words, join_singleton, List.append_assoc, List.takeWhile_append_dropWhile]
    have hgap : ∀ s, s ≠ [] → s <:+ g →
        markerLength (s ++ ((markerText m ++ z.takeWhile isSpace) ++ z.dropWhile isSpace)) = none := by
      intro s hne hs
      rcases hc.gap with rfl | ⟨rfl, -⟩
      · obtain rfl : s = [' '] := by
          rcases List.suffix_cons_iff.mp hs with hs | hs
          · exact hs
          · exact absurd (List.suffix_nil.mp hs) hne
        exact markerLength_eq_none fun m' =>
          not_opener_of_blank (needle_marker m').ne_nil (needle_marker m').noSpace isSpace_space _
      · exact absurd (List.suffix_nil.mp hs) hne
    have hdelete : deleteMatches markerLength 0 (join (wordsOf P F)) = u ++ (g ++ z.dropWhile isSpace) := by
      rw [hal.wordsOf_eq, hc.text, hmarker, deleteMatches_append, deleteMatches_append hgap,
        deleteMatches_match, deleteMatches_eq_self]
      · exact fun s _ hs => markerLength_eq_none fun m' hr =>
          hz m' (hr.isInfix.trans (hs.trans (List.dropWhile_suffix _)).isInfix)
      · exact List.append_ne_nil_of_left_ne_nil (needle_marker m).ne_nil _
      · rw [List.append_assoc, List.takeWhile_append_dropWhile]
        exact markerLength_marker m z
      · exact fun s hne hs => markerLength_eq_none fun m' =>
          (needle_marker m').not_prefix_before (hu m') hs hne hc.nil_or_gap
    rw [hdelete, hal.wordsOf_without]
    exact hc.reads_dropWhile hfield
  · push Not at hmem
    have hclear := h.not_marker_isInfix fun p hp => ⟨hp, hmem p hp⟩
    have hnone : deleteMatches markerLength 0 (join (wordsOf P F)) = join (wordsOf P F) :=
      deleteMatches_eq_self fun s _ hs => markerLength_eq_none fun m hr => by
        obtain ⟨w, hw, hr⟩ := ((reads_join _).infix_iff (needle_marker m)).mp (hr.isInfix.trans hs.isInfix)
        exact hclear m w hw hr
    rw [hnone, without_eq_self hmem]
    exact reads_join _

/-- The marker of a mandatory field is found iff it is written. -/
theorem mandatory_infix_iff (h : Written P F) :
    "[MANDATORY]".toList <:+: join (wordsOf P F) ↔ Piece.marker true ∈ P := by
  have hiff := (reads_join (wordsOf P F)).infix_iff (needle_marker true)
  refine Iff.trans hiff ⟨?_, fun hm => ?_⟩
  · rintro ⟨w, hw, hr⟩
    rcases List.mem_append.mp hw with hw | hw
    · obtain ⟨p, hp, hw⟩ := List.mem_flatMap.mp hw
      rcases mem_words (h.valid p hp) hw with hplain | ⟨m, rfl, rfl⟩ | ⟨a, -, rfl⟩
      · exact absurd hr (hplain.marks true)
      · have hm : ∀ m, markerText true <:+: markerText m → m = true := by decide +kernel
        rwa [hm m hr] at hp
      · exact absurd hr (not_marker_infix_opener true a.key (key_mem a))
    · rcases h.mem_rest hw with hplain | ⟨k, hk, rfl⟩
      · exact absurd hr (hplain.marks true)
      · exact absurd hr (not_marker_infix_opener true k hk)
  · exact ⟨markerText true, List.mem_append_left _ (List.mem_flatMap.mpr ⟨_, hm, List.mem_cons_self⟩),
      List.infix_refl _⟩

/-! ## The field -/

/-- The kinds whose words stay in the text: all but those that are taken out. -/
def stayKind (kind : Option Text) : Bool :=
  decide (kind ≠ some "pattern".toList) && (decide (kind ≠ some "options".toList) &&
    (decide (kind ≠ some "default".toList) && decide (kind ≠ some "marker".toList)))

/-- The piece's words stay in the text. -/
def Piece.stays (p : Piece) : Bool := stayKind p.kind

theorem Piece.stays_iff (p : Piece) :
    p.stays = true ↔ (∃ w, p = .word w) ∨ ∃ n, p = .annot (.min n) ∨ p = .annot (.max n) := by
  have hnone : stayKind none = true := by decide
  have hmin : stayKind (some "min".toList) = true := by decide
  have hmax : stayKind (some "max".toList) = true := by decide
  have hmarker : stayKind (some "marker".toList) ≠ true := by decide
  have hdefault : stayKind (some "default".toList) ≠ true := by decide
  have hoptions : stayKind (some "options".toList) ≠ true := by decide
  have hpattern : stayKind (some "pattern".toList) ≠ true := by decide
  cases p with
  | word w => exact ⟨fun _ => Or.inl ⟨w, rfl⟩, fun _ => hnone⟩
  | marker m => exact ⟨fun h => absurd h hmarker, by rintro (⟨w, hw⟩ | ⟨n, hn | hn⟩) <;> cases ‹_›⟩
  | annot a =>
    cases a with
    | default v => exact ⟨fun h => absurd h hdefault, by rintro (⟨w, hw⟩ | ⟨n, hn | hn⟩) <;> cases ‹_›⟩
    | options v => exact ⟨fun h => absurd h hoptions, by rintro (⟨w, hw⟩ | ⟨n, hn | hn⟩) <;> cases ‹_›⟩
    | pattern v => exact ⟨fun h => absurd h hpattern, by rintro (⟨w, hw⟩ | ⟨n, hn | hn⟩) <;> cases ‹_›⟩
    | min n => exact ⟨fun _ => Or.inr ⟨n, Or.inl rfl⟩, fun _ => hmin⟩
    | max n => exact ⟨fun _ => Or.inr ⟨n, Or.inr rfl⟩, fun _ => hmax⟩

theorem without_stays (P : List Piece) :
    without "pattern".toList (without "options".toList (without "default".toList
      (without "marker".toList P))) = P.filter Piece.stays := by
  simp only [without, List.filter_filter]
  exact List.filter_congr fun p _ => rfl

theorem findKey_cons_of_ne (h : p.kind ≠ some k) (P : List Piece) : findKey k (p :: P) = findKey k P := by
  rw [findKey, List.findSome?_cons, ← findKey]
  cases p with
  | word w => rfl
  | marker m => rfl
  | annot a => simp only [if_neg fun he => h (congrArg some he)]

theorem findKey_cons_of_eq (h : a.key = k) (P : List Piece) : findKey k (.annot a :: P) = some a := by
  rw [findKey, List.findSome?_cons]
  simp only [if_pos h]

theorem findKey_without {k' : Text} (hne : k ≠ k') (P : List Piece) :
    findKey k (without k' P) = findKey k P := by
  induction P with
  | nil => rfl
  | cons p P ih =>
    by_cases hp : p.kind = some k'
    · have hk : p.kind ≠ some k := fun h => hne (Option.some.inj (h.symm.trans hp))
      rw [without, List.filter_cons_of_neg (by simp [hp]), ← without, ih, findKey_cons_of_ne hk]
    · rw [without, List.filter_cons_of_pos (by simpa using hp), ← without]
      by_cases hk : p.kind = some k
      · cases p with
        | word w => exact absurd hk.symm (Option.some_ne_none _)
        | marker m =>
          rw [findKey, List.findSome?_cons, ← findKey, ih, findKey, findKey, List.findSome?_cons]
        | annot a => rw [findKey_cons_of_eq (Option.some.inj hk), findKey_cons_of_eq (Option.some.inj hk)]
      · rw [findKey_cons_of_ne hk, findKey_cons_of_ne hk, ih]

/-- What is found under a key has the key, and was written. -/
theorem findKey_eq_some (h : findKey k P = some a) : .annot a ∈ P ∧ a.key = k := by
  obtain ⟨p, hp, hfound⟩ := List.exists_of_findSome?_eq_some h
  cases p with
  | word w => exact absurd hfound.symm (Option.some_ne_none _)
  | marker m => exact absurd hfound.symm (Option.some_ne_none _)
  | annot a' =>
    dsimp only at hfound
    by_cases hk : a'.key = k
    · rw [if_pos hk] at hfound
      obtain rfl := Option.some.inj hfound
      exact ⟨hp, hk⟩
    · rw [if_neg hk] at hfound
      exact absurd hfound.symm (Option.some_ne_none _)

/-- Stripped, a value is its words. -/
theorem strip_value (h : (Piece.annot a).Valid) : strip (' ' :: join a.words) = join a.words := by
  obtain ⟨-, hv⟩ := isValue_words h
  rw [strip_cons_blank isSpace_space]
  exact (reads_join _).strip_eq fun w hw => (hv w hw).1.field

theorem join_value_ne_nil (h : (Piece.annot a).Valid) : join a.words ≠ [] := by
  obtain ⟨hne, hv⟩ := isValue_words h
  exact (isEntry_join hne fun w hw => (hv w hw).1.field).ne_nil

theorem splitOn_option {v : List Text} (h : ∀ w ∈ v, ',' ∉ w) :
    (' ' :: join v).splitOn ',' = [' ' :: join v] := by
  refine List.splitOn_eq_singleton fun hm => ?_
  rcases List.mem_cons.mp hm with hm | hm
  · exact absurd hm (by decide)
  · rcases mem_join hm with hm | ⟨w, hw, hm⟩
    · exact absurd hm (by decide)
    · exact h w hw hm

theorem splitOn_options : ∀ {values : List (List Text)}, values ≠ [] →
    (∀ v ∈ values, IsValue v ∧ ∀ w ∈ v, ',' ∉ w) →
    (' ' :: join (optionWords values)).splitOn ',' = values.map fun v => ' ' :: join v
  | [], h, _ => absurd rfl h
  | [v], _, h => splitOn_option (h v List.mem_cons_self).2
  | v :: v' :: vs, _, h => by
    have hv := h v List.mem_cons_self
    have hrest : ∀ u ∈ v' :: vs, IsValue u ∧ ∀ w ∈ u, ',' ∉ w := fun u hu => h u (List.mem_cons_of_mem _ hu)
    have hne : optionWords (v' :: vs) ≠ [] :=
      optionWords_ne_nil (List.cons_ne_nil _ _) fun u hu => (hrest u hu).1.1
    have htext : ' ' :: join (optionWords (v :: v' :: vs)) =
        (' ' :: join v) ++ ',' :: (' ' :: join (optionWords (v' :: vs))) := by
      rw [optionWords, join_append (by simp [appendLast]), join_appendLast hv.1.1, lead_eq_cons_join hne]
      · simp
      · exact fun he => List.cons_ne_nil _ _ he
    rw [htext, List.splitOn_append_cons_self, splitOn_option hv.2,
      splitOn_options (List.cons_ne_nil _ _) hrest]
    rfl

/-- **The options are read back.** -/
theorem optionValues_words {values : List (List Text)} (h : (Piece.annot (.options values)).Valid) :
    (optionValues (' ' :: join (optionWords values))) = values.map join := by
  have hfields : ∀ v ∈ values, ∀ w ∈ v, IsField isSpace w := fun v hv w hw =>
    ((h.2 v hv).1.2 w hw).1.field
  have hstrip : ∀ v ∈ values, strip (' ' :: join v) = join v := fun v hv => by
    rw [strip_cons_blank isSpace_space]
    exact (reads_join v).strip_eq (hfields v hv)
  rw [optionValues, splitOn_options h.1 h.2, List.map_map]
  have hmap : values.map (strip ∘ fun v => ' ' :: join v) = values.map join := List.map_congr_left hstrip
  rw [hmap]
  refine List.filter_eq_self.mpr fun t ht => ?_
  obtain ⟨v, hv, rfl⟩ := List.mem_map.mp ht
  exact decide_eq_true (isEntry_join (h.2 v hv).1.1 (hfields v hv)).ne_nil

theorem default_eq (h : Written P F) :
    ((findKey "default".toList P).map fun a => ' ' :: join a.words).elim [] (fun body => unquote (strip body)) =
      (findKey "default".toList P).elim [] fun a => unquote (join a.words) := by
  cases hf : findKey "default".toList P with
  | none => rfl
  | some a => exact congrArg unquote (strip_value (h.valid _ (findKey_eq_some hf).1))

theorem pattern_eq (h : Written P F) :
    (((findKey "pattern".toList P).map fun a => ' ' :: join a.words).map strip).bind nonempty =
      (findKey "pattern".toList P).map fun a => join a.words := by
  cases hf : findKey "pattern".toList P with
  | none => rfl
  | some a =>
    have hvalid := h.valid _ (findKey_eq_some hf).1
    rw [Option.map_some, Option.map_some, Option.bind_some, strip_value hvalid, nonempty,
      if_neg (join_value_ne_nil hvalid), Option.map_some]

theorem eq_options_of_key (h : a.key = "options".toList) : ∃ values, a = .options values := by
  have hdefault : "default".toList ≠ "options".toList := by decide
  have hpattern : "pattern".toList ≠ "options".toList := by decide
  have hmin : "min".toList ≠ "options".toList := by decide
  have hmax : "max".toList ≠ "options".toList := by decide
  cases a with
  | default v => exact absurd h hdefault
  | options values => exact ⟨values, rfl⟩
  | pattern v => exact absurd h hpattern
  | min n => exact absurd h hmin
  | max n => exact absurd h hmax

theorem enum_eq (h : Written P F) :
    (((findKey "options".toList P).map fun a => ' ' :: join a.words).map optionValues).bind nonempty =
      (findKey "options".toList P).map Annot.values := by
  cases hf : findKey "options".toList P with
  | none => rfl
  | some a =>
    have hvalid := h.valid _ (findKey_eq_some hf).1
    obtain ⟨values, rfl⟩ := eq_options_of_key (findKey_eq_some hf).2
    rw [Option.map_some, Option.map_some, Option.bind_some, Annot.words, optionValues_words hvalid,
      nonempty, if_neg (List.map_eq_nil_iff.not.mpr hvalid.1)]
    rfl

/-- **The field that is read** has all attributes that are written, and the words that stay for its
description. -/
theorem finish_eq (h : Written P F) (name : Text) (b : Bool) {rest : Text} (hrest : fields rest = wordsOf P F) :
    finish ⟨name, b, rest⟩ =
      { declaredOf name b P with description := join (wordsOf (P.filter Piece.stays) F) } := by
  have h1 := reads_deleteMarkers h
  have hmarker := h.without "marker".toList
  obtain ⟨t2, e2, h2⟩ := takeAnnotated_eq hmarker (k := "default".toList) List.mem_cons_self h1
  have hdefault := hmarker.without "default".toList
  obtain ⟨t3, e3, h3⟩ := takeAnnotated_eq hdefault (k := "options".toList)
    (List.mem_cons_of_mem _ List.mem_cons_self) h2
  have hoptions := hdefault.without "options".toList
  obtain ⟨t4, e4, h4⟩ := takeAnnotated_eq hoptions (k := "pattern".toList)
    (List.mem_cons_of_mem _ (List.mem_cons_of_mem _ List.mem_cons_self)) h3
  have hpattern := hoptions.without "pattern".toList
  have e5 := takeBound_eq hpattern (Or.inl rfl) h4
  have e6 := takeBound_eq hpattern (Or.inr rfl) h4
  have hcollapse : collapse rest = join (wordsOf P F) := congrArg join hrest
  have hdescription := h4.strip_eq fun w hw => hpattern.isField hw
  rw [without_stays] at hdescription
  have hfind : ∀ k ∈ ["min".toList, "max".toList],
      findKey k (without "pattern".toList (without "options".toList (without "default".toList
        (without "marker".toList P)))) = findKey k P := by
    intro k hk
    have hne : ∀ k ∈ ["min".toList, "max".toList], k ≠ "pattern".toList ∧ k ≠ "options".toList ∧
        k ≠ "default".toList ∧ k ≠ "marker".toList := by decide
    obtain ⟨hp, ho, hd, hm⟩ := hne k hk
    rw [findKey_without hp, findKey_without ho, findKey_without hd, findKey_without hm]
  rw [hfind _ List.mem_cons_self] at e5
  rw [hfind _ (List.mem_cons_of_mem _ List.mem_cons_self)] at e6
  rw [findKey_without (by decide)] at e2
  rw [findKey_without (by decide), findKey_without (by decide)] at e3
  rw [findKey_without (by decide), findKey_without (by decide),
    findKey_without (by decide)] at e4
  have hrequired : decide ("[MANDATORY]".toList <:+: join (wordsOf P F)) = decide (Piece.marker true ∈ P) :=
    decide_eq_decide.mpr (mandatory_infix_iff h)
  simp only [finish, hcollapse, hrequired, e2, e3, e4, e5, e6, hdescription, default_eq h, enum_eq h,
    pattern_eq h, declaredOf]

end LabInABox.Schema
