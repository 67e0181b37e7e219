import Mathlib.Data.List.Infix
import LabInABox.Config.ShellVars

/-!
# A configuration file, as the shell sources it

What `_parse_shell_vars` reads of each line, against the value the line gives its name in the shell.

* A line is `Plain` where it has none of the characters that the two divide or strip differently: a line
  break other than the newline, a letter or digit outside of ASCII next to a reference without braces, a blank
  outside of ASCII at an end of a word, or a tilde that the shell expands.
* A plain line is `Fine` unless it is skipped, is a single-quoted text in which the parser substitutes, or has a
  comment after an empty word or after a tab.

Results:
* `parseLine_assign`: what the parser does with an assignment.
* `unquote_single`, `unquote_double`, `unquote_word`, `unquote_word_comment`: the value it takes.
* `agree_parseLine_iff`: one line.
* `parse_agrees_iff`: a file.
* `single_quoted_substituted`: a single-quoted text with a `$`.
-/

namespace LabInABox.Config

open Text Shell

/-! ## Blanks at the ends -/

theorem rdropWhile_append_cons {c : Char} (h : isSpace c = false) (u v : Text) :
    (u ++ c :: v).rdropWhile isSpace = u ++ c :: v.rdropWhile isSpace := by
  have hc : ¬ isSpace c = true := by
    rw [h]
    exact Bool.false_ne_true
  unfold List.rdropWhile
  rw [List.reverse_append, List.reverse_cons, List.append_assoc, List.dropWhile_append]
  split
  · rename_i he
    rw [List.isEmpty_iff.mp he, List.singleton_append, List.dropWhile_cons_of_neg hc, List.reverse_cons,
      List.reverse_reverse, List.reverse_nil]
  · rw [List.reverse_append, List.singleton_append, List.reverse_cons, List.reverse_reverse, List.append_assoc,
      List.singleton_append]

theorem strip_blank_append {b : Text} {c : Char} (hb : ∀ x ∈ b, isSpace x = true) (hc : isSpace c = false)
    (t : Text) : strip (b ++ c :: t) = c :: t.rdropWhile isSpace := by
  have hneg : ¬ isSpace c = true := by
    rw [hc]
    exact Bool.false_ne_true
  rw [strip, List.dropWhile_append_of_pos hb, List.dropWhile_cons_of_neg hneg]
  exact rdropWhile_append_cons hc [] t

theorem strip_rdropWhile (t : Text) : strip (t.rdropWhile isSpace) = strip t := by
  by_cases h : ∀ c ∈ t, isSpace c = true
  · rw [strip_eq_nil_iff.mpr h, List.rdropWhile_eq_nil_iff.mpr h]
    rfl
  · have hsplit : t.takeWhile isSpace ++ t.dropWhile isSpace = t := List.takeWhile_append_dropWhile
    have hb : ∀ c ∈ t.takeWhile isSpace, isSpace c = true := fun c hc => List.mem_takeWhile_imp hc
    cases hd : t.dropWhile isSpace with
    | nil =>
      rw [hd, List.append_nil] at hsplit
      exact absurd (hsplit ▸ hb) h
    | cons c ds =>
      have hc := List.head?_dropWhile_not isSpace t
      rw [hd] at hc
      dsimp only [List.head?_cons] at hc
      rw [hd] at hsplit
      rw [← hsplit, rdropWhile_append_cons hc, strip_blank_append hb hc, strip_blank_append hb hc,
        List.rdropWhile_idempotent]

theorem isSpace_of_isBlank {c : Char} (h : isBlank c = true) : isSpace c = true := by
  unfold isBlank at h
  rw [Bool.or_eq_true, decide_eq_true_eq, decide_eq_true_eq] at h
  rcases h with rfl | rfl <;> decide

/-! ## One assignment -/

section Line

variable (isalnum : Char → Bool) (environ : Env) (tilde : Env → Text → Option Text)

/-- `raw`, of an assignment. -/
def raw (a : Assignment) : Text := strip (a.value.text ++ a.trail.text)

/-- The parser passes an assignment over. -/
def Skipped (a : Assignment) : Prop :=
  declarations.any (·.isPrefixOf a.key.1) = true ∨ (raw a).head? = some '(' ∨ hasSubstitution (raw a) = true

instance (a : Assignment) : Decidable (Skipped a) := inferInstanceAs (Decidable (_ ∨ _ ∨ _))

/-- A name has no declaration's blank or equals sign. -/
theorem declares_iff (key rest : Text) :
    declarations.any (·.isPrefixOf (key ++ '=' :: rest)) = declarations.any (·.isPrefixOf key) := by
  have hnot : ∀ d ∈ declarations, '=' ∉ d := by decide
  rw [Bool.eq_iff_iff, List.any_eq_true, List.any_eq_true]
  refine exists_congr fun d => and_congr_right fun hd => ?_
  rw [List.isPrefixOf_iff_prefix, List.isPrefixOf_iff_prefix, prefix_append_cons_iff _ (hnot d hd)]

variable {isalnum environ tilde}

theorem isSpace_of_nameChar {c : Char} (h : nameChar c = true) : isSpace c = false := by
  unfold nameChar at h
  rw [Bool.or_eq_true, decide_eq_true_eq] at h
  rcases h with h | rfl
  · exact isSpace_of_isAlphanum h
  · decide

/-- **What the parser does with an assignment**: it passes it over, or sets the key. -/
theorem parseLine_assign (result : Obj Text Text) {lead : Text} (hl : lead.all isBlank = true) (a : Assignment) :
    parseLine isalnum environ result (lead ++ (a.key.1 ++ '=' :: (a.value.text ++ a.trail.text))) =
      if Skipped a then result
      else result.set a.key.1 (subst isalnum (valueOf environ result) (unquote (raw a))) := by
  obtain ⟨k, ks, hkey, hstart, hname⟩ := exists_of_isName a.key.2
  have hlead : ∀ c ∈ lead, isSpace c = true := fun c hc => isSpace_of_isBlank (List.all_eq_true.mp hl c hc)
  have hk := isSpace_of_nameChar (nameChar_of_nameStart hstart)
  have hstrip : strip (lead ++ (a.key.1 ++ '=' :: (a.value.text ++ a.trail.text))) =
      a.key.1 ++ '=' :: (a.value.text ++ a.trail.text).rdropWhile isSpace := by
    rw [hkey, List.cons_append, strip_blank_append hlead hk, rdropWhile_append_cons (by decide)]
    rfl
  have hhead : (a.key.1 ++ '=' :: (a.value.text ++ a.trail.text).rdropWhile isSpace).head? = some k := by
    rw [hkey, List.cons_append, List.head?_cons]
  have hassign : ∀ rest, assignment (a.key.1 ++ '=' :: rest) = some (a.key.1, rest) := by
    intro rest
    have hall : ∀ c ∈ a.key.1, nameChar c = true := by
      rw [hkey]
      exact hname
    have heq : ¬ nameChar '=' = true := by decide
    unfold assignment
    rw [List.dropWhile_append_of_pos hall, List.dropWhile_cons_of_neg heq, List.takeWhile_append_of_pos hall,
      List.takeWhile_cons_of_neg heq, List.append_nil]
    refine if_pos ?_
    rw [hkey, List.head?_cons]
    exact hstart
  have hentry : ¬ (a.key.1 ++ '=' :: (a.value.text ++ a.trail.text).rdropWhile isSpace = [] ∨
      (a.key.1 ++ '=' :: (a.value.text ++ a.trail.text).rdropWhile isSpace).head? = some '#' ∨
      '=' ∉ a.key.1 ++ '=' :: (a.value.text ++ a.trail.text).rdropWhile isSpace) := by
    rw [hhead]
    rintro (h | h | h)
    · rw [h] at hhead
      exact absurd hhead.symm (Option.some_ne_none k)
    · rw [Option.some.inj h] at hstart
      exact absurd hstart (by decide)
    · exact h (List.mem_append_right _ List.mem_cons_self)
  unfold parseLine
  rw [hstrip]
  dsimp only
  rw [if_neg hentry, declares_iff, hassign]
  dsimp only
  rw [strip_rdropWhile]
  change (if _ then _ else if (raw a).head? = some '(' ∨ hasSubstitution (raw a) = true then _ else _) = _
  by_cases hd : declarations.any (·.isPrefixOf a.key.1) = true
  · have hskip : Skipped a := Or.inl hd
    rw [if_pos hd, if_pos hskip]
  · rw [if_neg hd]
    by_cases hs : (raw a).head? = some '(' ∨ hasSubstitution (raw a) = true
    · have hskip : Skipped a := Or.inr hs
      rw [if_pos hs, if_pos hskip]
    · have hskip : ¬ Skipped a := fun h => h.elim hd hs
      rw [if_neg hs, if_neg hskip]
      rfl

/-- A line that is blank, or a comment. -/
theorem parseLine_blank (result : Obj Text Text) {lead : Text} (hl : lead.all isBlank = true) {t : Text}
    (ht : t.head? = none ∨ t.head? = some '#') : parseLine isalnum environ result (lead ++ t) = result := by
  have hlead : ∀ c ∈ lead, isSpace c = true := fun c hc => isSpace_of_isBlank (List.all_eq_true.mp hl c hc)
  unfold parseLine
  cases t with
  | nil =>
    rw [List.append_nil, strip_eq_nil_iff.mpr hlead]
    exact if_pos (Or.inl rfl)
  | cons c cs =>
    have hc : c = '#' := ht.elim (fun h => absurd h (Option.some_ne_none c)) Option.some.inj
    rw [hc, strip_blank_append hlead (by decide)]
    exact if_pos (Or.inr (Or.inl rfl))

/-! ## The value that is taken -/

theorem strip_quoted {q : Char} (hq : isSpace q = false) (s t : Text) :
    strip (q :: s ++ [q] ++ t) = q :: (s ++ q :: t.rdropWhile isSpace) := by
  have happend : q :: s ++ [q] ++ t = [] ++ q :: (s ++ q :: t) := by
    rw [List.append_assoc, List.cons_append, List.singleton_append, List.nil_append]
  rw [happend, strip_blank_append (fun c hc => absurd hc List.not_mem_nil) hq, rdropWhile_append_cons hq]

theorem takeWhile_quoted {q : Char} {s : Text} (hs : q ∉ s) (t : Text) :
    (s ++ q :: t).takeWhile (· ≠ q) = s := by
  have hall : ∀ c ∈ s, decide (c ≠ q) = true := fun c hc => decide_eq_true fun h => hs (h ▸ hc)
  rw [List.takeWhile_append_of_pos hall, List.takeWhile_cons_of_neg (by simp), List.append_nil]

theorem unquote_single {a : Assignment} {s : {s : Text // '\'' ∉ s}} (h : a.value = .single s) :
    unquote (raw a) = s.1 := by
  unfold raw
  rw [h, Value.text, strip_quoted (by decide)]
  exact takeWhile_quoted s.2 _

theorem unquote_double {a : Assignment} {s : {s : Text // '"' ∉ s}} (h : a.value = .double s) :
    unquote (raw a) = s.1 := by
  unfold raw
  rw [h, Value.text, strip_quoted (by decide)]
  exact takeWhile_quoted s.2 _

/-- A value that is not quoted ends before its comment. -/
theorem unquote_of_head {raw : Text} (h : ∀ c, raw.head? = some c → c ≠ '"' ∧ c ≠ '\'') :
    unquote raw = match beforeComment raw with
      | some before => before.rdropWhile isSpace
      | none => raw := by
  unfold unquote
  split
  · exact absurd rfl (h '"' rfl).1
  · exact absurd rfl (h '\'' rfl).2
  · rfl

theorem beforeComment_cons {c : Char} {cs : Text} (h : c ≠ ' ' ∨ cs.head? ≠ some '#') :
    beforeComment (c :: cs) = (beforeComment cs).map (c :: ·) := by
  rw [beforeComment.eq_def]
  split
  · rename_i heq
    exact absurd heq (List.cons_ne_nil c cs)
  · rename_i heq
    obtain ⟨rfl, rfl⟩ := List.cons.inj heq
    exact h.elim (fun h => absurd rfl h) fun h => absurd rfl h
  · rename_i heq
    rw [(List.cons.inj heq).1, (List.cons.inj heq).2]

/-- Text without a space is before any comment. -/
theorem beforeComment_word {u : Text} (h : ' ' ∉ u) (r : Text) :
    beforeComment (u ++ r) = (beforeComment r).map (u ++ ·) := by
  induction u with
  | nil => rw [List.nil_append]; exact Option.map_id'.symm
  | cons c cs ih =>
    rw [List.mem_cons, not_or] at h
    rw [List.cons_append, beforeComment_cons (Or.inl fun hc => h.1 hc.symm), ih h.2, Option.map_map]
    rfl

/-- So are blanks, unless a `#` follows them. -/
theorem beforeComment_blanks {b : Text} (hb : b.all isBlank = true) {r : Text} (hr : r.head? ≠ some '#') :
    beforeComment (b ++ r) = (beforeComment r).map (b ++ ·) := by
  induction b with
  | nil => rw [List.nil_append]; exact Option.map_id'.symm
  | cons c cs ih =>
    rw [List.all_cons, Bool.and_eq_true] at hb
    have hhead : (cs ++ r).head? ≠ some '#' := by
      cases cs with
      | nil => exact hr
      | cons d ds =>
        rw [List.cons_append, List.head?_cons]
        intro hd
        have hblank := hb.2
        rw [Option.some.inj hd, List.all_cons, Bool.and_eq_true] at hblank
        exact absurd hblank.1 (by decide)
    rw [List.cons_append, beforeComment_cons (Or.inr hhead), ih hb.2, Option.map_map]
    rfl

/-! ### Words -/

/-- No blank outside of ASCII stands at an end of the word. -/
def Trimmed (w : Text) : Prop :=
  (∀ c, w.head? = some c → isSpace c = false) ∧ ∀ c, w.getLast? = some c → isSpace c = false

theorem ne_of_isWordChar {c : Char} (h : isWordChar c = true) : c ≠ ' ' ∧ c ≠ '"' ∧ c ≠ '\'' := by
  refine ⟨?_, ?_, ?_⟩ <;>
  · rintro rfl
    exact absurd h (by decide)

theorem head_ne_of_isWordChar {w r : Text} (hne : w ≠ []) (hw : w.all isWordChar = true) :
    ∀ c, (w ++ r).head? = some c → c ≠ '"' ∧ c ≠ '\'' := by
  intro c hc
  rw [List.head?_append_of_ne_nil _ hne] at hc
  exact (ne_of_isWordChar (List.all_eq_true.mp hw c (List.mem_of_head? hc))).2

theorem space_not_mem_word {w : Text} (hw : w.all isWordChar = true) : ' ' ∉ w := fun h =>
  (ne_of_isWordChar (List.all_eq_true.mp hw _ h)).1 rfl

theorem beforeComment_of_not_mem {u : Text} (h : ' ' ∉ u) : beforeComment u = none := by
  have happend := beforeComment_word h []
  rwa [List.append_nil] at happend

theorem blanks_of_all {b : Text} (hb : b.all isBlank = true) : ∀ c ∈ b, isSpace c = true := fun c hc =>
  isSpace_of_isBlank (List.all_eq_true.mp hb c hc)

/-- A word by itself. -/
theorem unquote_word {a : Assignment} {w : {w : Text // w.all isWordChar = true}} (h : a.value = .word w)
    (hc : a.trail.comment = none) (ht : Trimmed w.1) : unquote (raw a) = w.1 := by
  have hb := blanks_of_all a.trail.allBlank
  have hraw : raw a = w.1 := by
    unfold raw
    rw [h, Value.text, Trail.text, hc, Option.elim_none, List.append_nil]
    by_cases hne : w.1 = []
    · rw [hne, List.nil_append]
      exact strip_eq_nil_iff.mpr hb
    · exact strip_append_blank hne ht.1 ht.2 hb
  rw [hraw]
  by_cases hne : w.1 = []
  · rw [hne]
    rfl
  · have hhead := head_ne_of_isWordChar (r := []) hne w.2
    rw [List.append_nil] at hhead
    rw [unquote_of_head hhead, beforeComment_of_not_mem (space_not_mem_word w.2)]

/-- A word before a comment, as it is stripped. -/
theorem raw_word_comment {a : Assignment} {w : {w : Text // w.all isWordChar = true}} {c : Text}
    (h : a.value = .word w) (hc : a.trail.comment = some c) (hne : w.1 ≠ []) (ht : Trimmed w.1) :
    raw a = w.1 ++ (a.trail.blanks ++ '#' :: c.rdropWhile isSpace) := by
  unfold raw
  rw [h, Value.text, Trail.text, hc, Option.elim_some]
  obtain ⟨x, xs, hx⟩ := List.exists_cons_of_ne_nil hne
  have hhead := ht.1 x (by rw [hx, List.head?_cons])
  rw [hx, List.cons_append, ← List.nil_append (x :: _),
    strip_blank_append (fun c hc => absurd hc List.not_mem_nil) hhead, ← List.append_assoc,
    rdropWhile_append_cons (by decide), List.append_assoc]
  rfl

/-- A word, a space and a comment. -/
theorem unquote_word_comment {a : Assignment} {w : {w : Text // w.all isWordChar = true}} {c : Text}
    (h : a.value = .word w) (hc : a.trail.comment = some c) (hne : w.1 ≠ [])
    (hl : a.trail.blanks.getLast? = some ' ') (ht : Trimmed w.1) : unquote (raw a) = w.1 := by
  obtain ⟨b, hb⟩ := List.getLast?_eq_some_iff.mp hl
  have hall := a.trail.allBlank
  rw [hb, List.all_append, Bool.and_eq_true] at hall
  have hspace : beforeComment (' ' :: '#' :: c.rdropWhile isSpace) = some [] := rfl
  have hhead : (' ' :: '#' :: c.rdropWhile isSpace).head? ≠ some '#' := by
    rw [List.head?_cons]
    decide
  rw [raw_word_comment h hc hne ht, hb, unquote_of_head (head_ne_of_isWordChar hne w.2),
    beforeComment_word (space_not_mem_word w.2), List.append_assoc, List.singleton_append,
    beforeComment_blanks hall.1 hhead, hspace]
  simp only [Option.map_some, List.append_nil]
  have hdrop : w.1.rdropWhile isSpace = w.1 := List.rdropWhile_eq_self_iff.mpr fun hne' => by
    rw [ht.2 _ (List.getLast?_eq_some_getLast hne')]
    exact Bool.false_ne_true
  have hblank := blanks_of_all hall.1
  unfold List.rdropWhile at hdrop ⊢
  rw [List.reverse_append, List.dropWhile_append_of_pos fun x hx => hblank x (List.mem_reverse.mp hx)]
  exact hdrop

/-- What begins with a `#` keeps it. -/
theorem exists_beforeComment (u c : Text) (hu : beforeComment (u ++ '#' :: c) =
    (beforeComment ('#' :: c)).map (u ++ ·)) :
    ∃ y, (match beforeComment (u ++ '#' :: c) with
      | some before => before.rdropWhile isSpace
      | none => u ++ '#' :: c) = u ++ '#' :: y := by
  rw [hu, beforeComment_cons (Or.inl (by decide))]
  cases beforeComment c with
  | none => exact ⟨c, rfl⟩
  | some x => exact ⟨_, rdropWhile_append_cons (by decide) u x⟩

/-- After an empty word or a tab, a comment is taken for a part of the value. -/
theorem unquote_word_tab {a : Assignment} {w : {w : Text // w.all isWordChar = true}} {c : Text}
    (h : a.value = .word w) (hc : a.trail.comment = some c) (ht : Trimmed w.1)
    (hbad : ¬ (w.1 ≠ [] ∧ a.trail.blanks.getLast? = some ' ')) :
    ∃ z y, z.all isBlank = true ∧ unquote (raw a) = w.1 ++ (z ++ '#' :: y) := by
  by_cases hne : w.1 = []
  · have hraw : raw a = '#' :: c.rdropWhile isSpace := by
      unfold raw
      rw [h, Value.text, Trail.text, hc, Option.elim_some, hne, List.nil_append]
      exact strip_blank_append (blanks_of_all a.trail.allBlank) (by decide) c
    have hhead : ∀ x, ('#' :: c.rdropWhile isSpace).head? = some x → x ≠ '"' ∧ x ≠ '\'' := by
      intro x hx
      rw [← Option.some.inj hx]
      decide
    obtain ⟨y, hy⟩ := exists_beforeComment [] (c.rdropWhile isSpace) Option.map_id'.symm
    refine ⟨[], y, rfl, ?_⟩
    rw [hraw, unquote_of_head hhead, hne]
    exact hy
  · have hl : a.trail.blanks.getLast? ≠ some ' ' := fun hl => hbad ⟨hne, hl⟩
    have hblanks := a.trail.apart (by rw [hc]; exact Option.some_ne_none c)
    -- the last blank is a tab
    obtain ⟨b, x, hb⟩ := (List.eq_nil_or_concat a.trail.blanks).resolve_left hblanks
    have hall := a.trail.allBlank
    rw [hb, List.concat_eq_append, List.all_append, Bool.and_eq_true] at hall
    have hx : x = '\t' := by
      have hxb := List.all_eq_true.mp hall.2 x List.mem_cons_self
      unfold isBlank at hxb
      rw [Bool.or_eq_true, decide_eq_true_eq, decide_eq_true_eq] at hxb
      refine hxb.resolve_left fun hx => hl ?_
      rw [hb, List.concat_eq_append, hx]
      exact List.getLast?_concat
    have htab : ∀ r, beforeComment ('\t' :: r) = (beforeComment r).map ('\t' :: ·) := fun r =>
      beforeComment_cons (Or.inl (by decide))
    have hhead : ('\t' :: '#' :: c.rdropWhile isSpace).head? ≠ some '#' := by
      rw [List.head?_cons]
      decide
    obtain ⟨y, hy⟩ := exists_beforeComment (w.1 ++ a.trail.blanks) (c.rdropWhile isSpace) (by
      rw [hb, hx, List.concat_eq_append, List.append_assoc, List.append_assoc,
        beforeComment_word (space_not_mem_word w.2), List.singleton_append,
        beforeComment_blanks hall.1 hhead, htab, Option.map_map, Option.map_map]
      congr 1
      funext z
      simp)
    refine ⟨a.trail.blanks, y, a.trail.allBlank, ?_⟩
    rw [raw_word_comment h hc hne ht, unquote_of_head (head_ne_of_isWordChar hne w.2), ← List.append_assoc]
    rw [hy, List.append_assoc]

/-! ## Reading line by line -/

section Agreement

variable (isalnum environ tilde)

/-- A value without the characters that are divided or stripped differently. -/
def PlainValue : Value → Prop
  | .word w => hasTilde w.1 = false ∧ Trimmed w.1 ∧ Aligned isalnum w.1
  | .single _ => True
  | .double s => Aligned isalnum s.1

/-- A line without them. -/
structure Plain (l : Line) : Prop where
  oneLine : OneLine l.text
  value : ∀ a, l.item = .assign a → PlainValue isalnum a.value

/-- The value of a name, of the lines before or of the environment. -/
def valueIn (σ : Env) : Env := fun name => (σ name).or (environ name)

/-- An assignment that is read as the shell does: where it is skipped, the key has its value already; in a
single-quoted text nothing is substituted; a comment follows a word, and a space. -/
structure Fine (σ : Env) (a : Assignment) : Prop where
  skipped : Skipped a → σ a.key.1 = a.value.eval tilde σ
  verbatim : ¬ Skipped a → ∀ s, a.value = .single s → subst isalnum (valueIn environ σ) s.1 = s.1
  comment : ¬ Skipped a → ∀ w c, a.value = .word w → a.trail.comment = some c →
    w.1 ≠ [] ∧ a.trail.blanks.getLast? = some ' '

/-- Every line that the shell reads is fine, with the values of the lines before. -/
def FineFrom (σ : Env) : List Line → Prop
  | [] => True
  | l :: ls => ∀ σ', l.exec tilde σ = some σ' →
    (∀ a, l.item = .assign a → Fine isalnum environ tilde σ a) ∧ FineFrom σ' ls

/-- The parser's values are the shell's. -/
def Agree (result : Obj Text Text) (σ : Env) : Prop := ∀ k, result.get k = σ k

variable {isalnum environ tilde} {result : Obj Text Text} {σ σ' : Env}

theorem agree_set_iff (h : Agree result σ) (key x v : Text) :
    Agree (result.set key x) (Function.update σ key (some v)) ↔ x = v := by
  constructor
  · intro ha
    have hk := ha key
    rw [Obj.get_set, if_pos rfl, Function.update_self] at hk
    exact Option.some.inj hk
  · rintro rfl k
    rw [Obj.get_set, Function.update_apply, h k]

theorem agree_update_iff (h : Agree result σ) (key v : Text) :
    Agree result (Function.update σ key (some v)) ↔ σ key = some v := by
  constructor
  · intro ha
    have hk := ha key
    rw [Function.update_self] at hk
    rw [← h key, hk]
  · intro hv k
    rw [h k, Function.update_apply]
    split
    · rename_i hk
      rw [hk, hv]
    · rfl

theorem valueOf_eq (h : Agree result σ) : valueOf environ result = valueIn environ σ := by
  funext name
  rw [valueOf, valueIn, h name]

/-- What is taken for a part of the value is never the value. -/
theorem subst_append_ne {w v z y : Text} (ha : Aligned isalnum w) (hv : expand σ 0 w = some v)
    (hz : z.all isBlank = true) : subst isalnum (valueIn environ σ) (w ++ (z ++ '#' :: y)) ≠ v := by
  obtain ⟨c, cs, hcons, hc⟩ : ∃ c cs, z ++ '#' :: y = c :: cs ∧ (isBlank c = true ∨ c = '#') := by
    cases z with
    | nil => exact ⟨'#', y, rfl, Or.inr rfl⟩
    | cons c cs => exact ⟨c, cs ++ '#' :: y, rfl, Or.inl (List.all_eq_true.mp hz c List.mem_cons_self)⟩
  have hplain : wordChar isalnum c = false ∧ c ≠ '\x7b' ∧ c ≠ '$' := by
    unfold isBlank at hc
    rw [Bool.or_eq_true, decide_eq_true_eq, decide_eq_true_eq] at hc
    rcases hc with (rfl | rfl) | rfl <;> exact ⟨rfl, by decide, by decide⟩
  have hends : Ends isalnum (z ++ '#' :: y) := by
    intro x hx
    rw [hcons, List.head?_cons] at hx
    rw [← Option.some.inj hx]
    exact ⟨hplain.1, hplain.2.1⟩
  have hsub : ∀ n x, σ n = some x → valueIn environ σ n = some x := fun n x hn => by
    rw [valueIn, hn, Option.some_or]
  unfold subst
  rw [replaceMatches_of_expand hsub hends (Nat.zero_le _) ha hv, hcons,
    replaceMatches_none (by rw [expandMatch, varRef_of_ne hplain.2.2, Option.map_none])]
  intro he
  have hlen := congrArg List.length he
  rw [List.length_append, List.length_cons] at hlen
  omega

/-- An assignment that is not skipped. -/
theorem subst_unquote_iff {a : Assignment} {v : Text} (hp : PlainValue isalnum a.value)
    (hv : a.value.eval tilde σ = some v) :
    subst isalnum (valueIn environ σ) (unquote (raw a)) = v ↔
      (∀ s, a.value = .single s → subst isalnum (valueIn environ σ) s.1 = s.1) ∧
      ∀ w c, a.value = .word w → a.trail.comment = some c →
        w.1 ≠ [] ∧ a.trail.blanks.getLast? = some ' ' := by
  have hsub : ∀ n x, σ n = some x → valueIn environ σ n = some x := fun n x hn => by
    rw [valueIn, hn, Option.some_or]
  cases hval : a.value with
  | single s =>
    rw [hval] at hv
    rw [unquote_single hval, ← Option.some.inj hv]
    constructor
    · intro h
      refine ⟨fun t ht => ?_, fun w c hw => absurd hw Value.noConfusion⟩
      rw [← Value.single.inj ht]
      exact h
    · intro h
      exact h.1 s rfl
  | double s =>
    rw [hval] at hv hp
    rw [unquote_double hval, subst_eq_expand hsub hp hv]
    exact ⟨fun _ => ⟨fun t ht => absurd ht Value.noConfusion, fun w c hw => absurd hw Value.noConfusion⟩,
      fun _ => rfl⟩
  | word w =>
    rw [hval] at hv hp
    obtain ⟨htilde, htrim, halign⟩ := hp
    have hexp : expand σ 0 w.1 = some v := by
      rw [Value.eval, if_neg (by rw [htilde]; exact Bool.false_ne_true)] at hv
      exact hv
    have hsingle : ∀ s, Value.word w = .single s → subst isalnum (valueIn environ σ) s.1 = s.1 :=
      fun s hs => absurd hs Value.noConfusion
    cases hc : a.trail.comment with
    | none =>
      rw [unquote_word hval hc htrim, subst_eq_expand hsub halign hexp]
      exact ⟨fun _ => ⟨hsingle, fun _ c _ hcom => absurd hcom.symm (Option.some_ne_none c)⟩, fun _ => rfl⟩
    | some c =>
      by_cases hgood : w.1 ≠ [] ∧ a.trail.blanks.getLast? = some ' '
      · rw [unquote_word_comment hval hc hgood.1 hgood.2 htrim, subst_eq_expand hsub halign hexp]
        refine ⟨fun _ => ⟨hsingle, fun w' _ hw _ => ?_⟩, fun _ => rfl⟩
        rw [← Value.word.inj hw]
        exact hgood
      · obtain ⟨z, y, hz, hun⟩ := unquote_word_tab hval hc htrim hgood
        rw [hun]
        exact iff_of_false (subst_append_ne halign hexp hz) fun h => hgood (h.2 w c rfl rfl)

/-- **One line**: the parser still agrees exactly when the line is fine. -/
theorem agree_parseLine_iff {l : Line} (hp : Plain isalnum l) (h : Agree result σ)
    (hex : l.exec tilde σ = some σ') :
    Agree (parseLine isalnum environ result l.text) σ' ↔
      ∀ a, l.item = .assign a → Fine isalnum environ tilde σ a := by
  cases hitem : l.item with
  | blank =>
    have hline : parseLine isalnum environ result l.text = result := by
      unfold Line.text
      rw [hitem]
      exact parseLine_blank result l.lead.2 (Or.inl rfl)
    rw [Line.exec, hitem] at hex
    rw [hline, ← Option.some.inj hex]
    exact ⟨fun _ a ha => absurd ha Item.noConfusion, fun _ => h⟩
  | comment t =>
    have hline : parseLine isalnum environ result l.text = result := by
      unfold Line.text
      rw [hitem]
      exact parseLine_blank result l.lead.2 (Or.inr rfl)
    rw [Line.exec, hitem] at hex
    rw [hline, ← Option.some.inj hex]
    exact ⟨fun _ a ha => absurd ha Item.noConfusion, fun _ => h⟩
  | assign a =>
    have hline := @parseLine_assign isalnum environ result _ l.lead.2 a
    have htext : l.text = l.lead.1 ++ (a.key.1 ++ '=' :: (a.value.text ++ a.trail.text)) := by
      rw [Line.text, hitem]
    rw [Line.exec, hitem] at hex
    obtain ⟨v, hv, rfl⟩ := Option.map_eq_some_iff.mp hex
    have hfine : (∀ b, Item.assign a = .assign b → Fine isalnum environ tilde σ b) ↔
        Fine isalnum environ tilde σ a :=
      ⟨fun hall => hall a rfl, fun hf b hb => by rw [← Item.assign.inj hb]; exact hf⟩
    rw [htext, hline, hfine, valueOf_eq h]
    by_cases hs : Skipped a
    · rw [if_pos hs, agree_update_iff h]
      constructor
      · intro hk
        exact ⟨fun _ => hk.trans hv.symm, fun hn => absurd hs hn, fun hn => absurd hs hn⟩
      · intro hf
        exact (hf.skipped hs).trans hv
    · rw [if_neg hs, agree_set_iff h, subst_unquote_iff (hp.value a hitem) hv]
      constructor
      · intro hk
        exact ⟨fun hsk => absurd hsk hs, fun _ => hk.1, fun _ => hk.2⟩
      · intro hf
        exact ⟨hf.verbatim hs, hf.comment hs⟩

/-! ## A file -/

/-- **A run of lines**: every beginning of it agrees exactly when its lines are fine. -/
theorem agree_foldl_iff : ∀ {ls : List Line} {result : Obj Text Text} {σ : Env}, (∀ l ∈ ls, Plain isalnum l) →
    Agree result σ →
    ((∀ ls', ls' <+: ls → ∀ σ', ls'.foldlM (Line.exec tilde) σ = some σ' →
      Agree ((ls'.map Line.text).foldl (parseLine isalnum environ) result) σ') ↔
        FineFrom isalnum environ tilde σ ls)
  | [], result, σ, _, ha => by
    refine iff_of_true (fun ls' hls σ' hσ => ?_) trivial
    rw [List.prefix_nil.mp hls] at hσ ⊢
    rw [← Option.some.inj hσ]
    exact ha
  | l :: ls, result, σ, hp, ha => by
    have hpl := hp l List.mem_cons_self
    have hpls : ∀ m ∈ ls, Plain isalnum m := fun m hm => hp m (List.mem_cons_of_mem _ hm)
    constructor
    · intro h σ₁ hσ₁
      have hagree : Agree (parseLine isalnum environ result l.text) σ₁ :=
        h [l] (List.prefix_append [l] ls) σ₁ (by rw [List.foldlM_cons, hσ₁]; rfl)
      refine ⟨(agree_parseLine_iff hpl ha hσ₁).mp hagree, ?_⟩
      refine (agree_foldl_iff hpls hagree).mp fun ls' hls σ' hσ' => ?_
      exact h (l :: ls') (List.cons_prefix_cons.mpr ⟨rfl, hls⟩) σ' (by rw [List.foldlM_cons, hσ₁]; exact hσ')
    · intro h ls' hls σ' hσ'
      cases ls' with
      | nil =>
        rw [← Option.some.inj hσ']
        exact ha
      | cons m ls' =>
        obtain ⟨rfl, htail⟩ := List.cons_prefix_cons.mp hls
        rw [List.foldlM_cons] at hσ'
        obtain ⟨σ₁, hσ₁, hσ'⟩ := Option.bind_eq_some_iff.mp hσ'
        obtain ⟨hfine, hrest⟩ := h σ₁ hσ₁
        have hagree := (agree_parseLine_iff hpl ha hσ₁).mpr hfine
        exact (agree_foldl_iff hpls hagree).mpr hrest ls' htail σ' hσ'

theorem parseLine_nil (result : Obj Text Text) : parseLine isalnum environ result [] = result :=
  @parseLine_blank isalnum environ result [] rfl [] (Or.inl rfl)

/-- A newline at the end of a file does not matter. -/
theorem parseShellVars_append_newline (t : Text) :
    parseShellVars isalnum environ (t ++ ['\n']) = parseShellVars isalnum environ t := by
  unfold parseShellVars
  by_cases ho : openLine t = []
  · have hclosed : closedPart t = t := by
      conv_rhs => rw [← closedPart_append_openLine t, ho, List.append_nil]
    have hlast : ∀ c, t.getLast? = some c → isLineBreak c = true := fun c hc =>
      closedPart_last c (by rw [hclosed]; exact hc)
    rcases splitlines_append_closed hlast ['\n'] with h | ⟨y, hy, h⟩
    · rw [h, splitlines_newline, splitlines, List.foldl_append, List.foldl_cons, List.foldl_nil]
      exact parseLine_nil _
    · rw [h, ← (List.cons.inj hy).2, splitlines, List.append_nil]
  · have hone := oneLine_openLine t
    obtain ⟨c, cs, hcs⟩ := List.exists_cons_of_ne_nil ho
    have hhead : (openLine t ++ ['\n']).head? ≠ some '\n' := by
      rw [hcs, List.cons_append, List.head?_cons]
      intro h
      exact hone.not_mem (by rw [hcs, Option.some.inj h]; exact List.mem_cons_self)
    have hsplit : splitlines (t ++ ['\n']) = splitlines t := by
      conv_lhs => rw [← closedPart_append_openLine t, List.append_assoc]
      rw [splitlines_append_of_closed closedPart_last hhead, splitlines_append_newline hone,
        splitlines_eq_closed t, splitlines_of_oneLine ho hone]
      rfl
    rw [hsplit]

theorem parseShellVars_fileText {ls : List Line} (hp : ∀ l ∈ ls, Plain isalnum l) (final : Bool) :
    parseShellVars isalnum environ (fileText ls final) =
      (ls.map Line.text).foldl (parseLine isalnum environ) Obj.empty := by
  have hone : ∀ t ∈ ls.map Line.text, OneLine t := by
    intro t ht
    obtain ⟨l, hl, rfl⟩ := List.mem_map.mp ht
    exact (hp l hl).oneLine
  have hunlines : parseShellVars isalnum environ (unlines (ls.map Line.text)) =
      (ls.map Line.text).foldl (parseLine isalnum environ) Obj.empty := by
    rw [parseShellVars, splitlines_unlines hone]
  cases final with
  | true => exact hunlines
  | false =>
    cases ls with
    | nil => rfl
    | cons l ls =>
      rw [← hunlines, ← intercalate_append_newline (by rw [List.map_cons]; exact List.cons_ne_nil _ _),
        parseShellVars_append_newline]
      rfl

/-- The parser reads of a file, with or without a newline at its end, what the shell does. -/
def Agrees (isalnum : Char → Bool) (environ : Env) (tilde : Env → Text → Option Text) (ls : List Line) : Prop :=
  ∀ final σ, source tilde ls = some σ → Agree (parseShellVars isalnum environ (fileText ls final)) σ

/-- **A plain file**: it and its beginnings are read as the shell does exactly when their lines are fine. -/
theorem parse_agrees_iff {ls : List Line} (hp : ∀ l ∈ ls, Plain isalnum l) :
    (∀ ls', ls' <+: ls → Agrees isalnum environ tilde ls') ↔
      FineFrom isalnum environ tilde (fun _ => none) ls := by
  have hempty : Agree Obj.empty fun _ => none := fun _ => rfl
  rw [← agree_foldl_iff hp hempty]
  refine forall₂_congr fun ls' hls => ?_
  have hp' : ∀ l ∈ ls', Plain isalnum l := fun l hl => hp l (hls.subset hl)
  constructor
  · intro h σ hσ
    have hagree := h true σ hσ
    rwa [parseShellVars_fileText hp'] at hagree
  · intro h final σ hσ
    rw [parseShellVars_fileText hp']
    exact h σ hσ

end Agreement

end Line

/-! ## Two files -/

instance (isalnum : Char → Bool) (t : Text) : Decidable (Aligned isalnum t) :=
  decidable_of_iff ((t.tails.all fun s =>
    s.head? ≠ some '$' || (s.tail.dropWhile nameChar).head?.all fun c => !wordChar isalnum c) = true) (by
    rw [List.all_eq_true]
    constructor
    · intro h cs hcs c hc
      have hs := h _ ((List.mem_tails _ _).mpr hcs)
      rw [List.head?_cons, List.tail_cons, hc] at hs
      simpa using hs
    · intro h s hs
      rw [List.mem_tails] at hs
      cases s with
      | nil => rfl
      | cons c cs =>
        by_cases hc : c = '$'
        · rw [hc] at hs
          have ha := h cs hs
          rw [List.tail_cons]
          cases hd : (cs.dropWhile nameChar).head? with
          | none => simp
          | some d => simp [ha d hd]
        · simp [hc])

/-- A line without indentation. -/
def assignLine (key : {k : Text // isName k = true}) (value : Value) (comment : Option {t : Text // '\n' ∉ t}) :
    Line where
  lead := ⟨[], rfl⟩
  item := .assign
    { key, value
      trail :=
        { blanks := [' ']
          comment := comment.map Subtype.val
          allBlank := rfl
          apart := fun _ => List.cons_ne_nil _ _
          noNewline := fun c hc => by
            obtain ⟨t, -, rfl⟩ := Option.map_eq_some_iff.mp hc
            exact t.2 } }

/-- `A=1` -/
def plainLine : Line := assignLine ⟨['A'], by decide⟩ (.word ⟨['1'], by decide⟩) none

/-- A single-quoted text with the name of a key. -/
def quotedFile : List Line :=
  [plainLine, assignLine ⟨['B'], by decide⟩ (.single ⟨['$', 'A'], by decide⟩) none]

/-- A double-quoted text with a reference, and a comment. -/
def expandedFile : List Line :=
  [plainLine, assignLine ⟨['B'], by decide⟩ (.double ⟨['x', '$', '\x7b', 'A', '}'], by decide⟩)
    (some ⟨['c'], by decide⟩)]

/-- The parser substitutes in a single-quoted text. -/
theorem single_quoted_substituted :
    ¬ Agrees (fun _ => false) (fun _ => none) (fun _ _ => none) quotedFile := by
  intro h
  have hget := h true _ rfl ['B']
  exact absurd hget (by decide)

/-- A reference between double quotes, and a comment after it, are read as the shell does. -/
theorem double_quoted_agrees :
    (∀ l ∈ expandedFile, Plain (fun _ => false) l) ∧
      Agrees (fun _ => false) (fun _ => none) (fun _ _ => none) expandedFile := by
  have hp : ∀ l ∈ expandedFile, Plain (fun _ => false) l := by
    intro l hl
    rcases List.mem_cons.mp hl with rfl | hl
    · refine ⟨by decide, fun a ha => ?_⟩
      rw [← Item.assign.inj ha]
      exact ⟨rfl, ⟨by simp [isSpace], by simp [isSpace]⟩, by decide⟩
    · obtain rfl := List.mem_singleton.mp hl
      refine ⟨by decide, fun a ha => ?_⟩
      rw [← Item.assign.inj ha]
      show Aligned _ _
      decide
  have hfine : FineFrom (fun _ => false) (fun _ => none) (fun _ _ => none) (fun _ => none) expandedFile := by
    refine fun σ₁ _ => ⟨fun a ha => ?_, fun σ₂ _ => ⟨fun a ha => ?_, trivial⟩⟩
    · rw [← Item.assign.inj ha]
      exact ⟨fun hs => absurd hs (by decide), fun _ s hs => absurd hs Value.noConfusion,
        fun _ w c _ hc => absurd hc.symm (Option.some_ne_none c)⟩
    · rw [← Item.assign.inj ha]
      exact ⟨fun hs => absurd hs (by decide), fun _ s hs => absurd hs Value.noConfusion,
        fun _ w c hw => absurd hw Value.noConfusion⟩
  exact ⟨hp, (parse_agrees_iff hp).mpr hfine expandedFile (List.prefix_refl _)⟩

end LabInABox.Config
