import LabInABox.Text.Regex

/-!
# Extended regular expressions

`Ere` is an expression over character classes in which an anchor may stand anywhere. `Matches r a z t`
says that `r` matches `t` where `t` stands: at the beginning of its line if `a`, at its end if `z`.
`accepts` decides it by derivatives.

Results:
* `accepts_iff`, `search_iff`, `matchStart_iff`: the derivatives decide `Matches`.
* `Rejects.not_mem`: a character no class of an expression accepts stands in no text it matches.
* `search_line_iff`: fields with blanks between and around them match the lines with these fields.
-/

namespace LabInABox.Text

/-- An extended regular expression over character classes. -/
inductive Ere
  | never
  | empty
  | chr (p : Char → Bool)
  /-- `^` -/
  | bol
  /-- `$` -/
  | eol
  | cat (r s : Ere)
  | alt (r s : Ere)
  | star (r : Ere)

namespace Ere

/-! ## Meaning -/

/-- The texts an expression stands for, by whether they begin and whether they end the line. -/
inductive Matches : Ere → Bool → Bool → Text → Prop
  | empty {a z : Bool} : Matches .empty a z []
  | chr {a z : Bool} {p : Char → Bool} {c : Char} (h : p c = true) : Matches (.chr p) a z [c]
  | bol {z : Bool} : Matches .bol true z []
  | eol {a : Bool} : Matches .eol a true []
  | cat {a z : Bool} {r s : Ere} {t u : Text} (h₁ : Matches r a (z && u.isEmpty) t)
      (h₂ : Matches s (a && t.isEmpty) z u) : Matches (.cat r s) a z (t ++ u)
  | altLeft {a z : Bool} {r s : Ere} {t : Text} (h : Matches r a z t) : Matches (.alt r s) a z t
  | altRight {a z : Bool} {r s : Ere} {t : Text} (h : Matches s a z t) : Matches (.alt r s) a z t
  | starNil {a z : Bool} {r : Ere} : Matches (.star r) a z []
  | starCons {a z : Bool} {r : Ere} {t u : Text} (h₁ : Matches r a (z && u.isEmpty) t)
      (h₂ : Matches (.star r) (a && t.isEmpty) z u) : Matches (.star r) a z (t ++ u)

section Meaning

variable {r s : Ere} {a z : Bool} {t : Text}

theorem not_matches_never : ¬ Matches never a z t := fun h => by cases h

theorem matches_empty_iff : Matches empty a z t ↔ t = [] :=
  ⟨fun h => by cases h; rfl, fun h => h ▸ Matches.empty⟩

theorem matches_chr_iff {p : Char → Bool} : Matches (chr p) a z t ↔ ∃ c, t = [c] ∧ p c = true :=
  ⟨fun h => by cases h with | chr h => exact ⟨_, rfl, h⟩, fun ⟨_, ht, h⟩ => ht ▸ Matches.chr h⟩

theorem matches_bol_iff : Matches bol a z t ↔ a = true ∧ t = [] :=
  ⟨fun h => by cases h; exact ⟨rfl, rfl⟩, fun ⟨ha, ht⟩ => by rw [ha, ht]; exact Matches.bol⟩

theorem matches_eol_iff : Matches eol a z t ↔ z = true ∧ t = [] :=
  ⟨fun h => by cases h; exact ⟨rfl, rfl⟩, fun ⟨hz, ht⟩ => by rw [hz, ht]; exact Matches.eol⟩

theorem matches_cat_iff : Matches (cat r s) a z t ↔
    ∃ u v, t = u ++ v ∧ Matches r a (z && v.isEmpty) u ∧ Matches s (a && u.isEmpty) z v :=
  ⟨fun h => by cases h with | cat h₁ h₂ => exact ⟨_, _, rfl, h₁, h₂⟩,
    fun ⟨_, _, ht, h₁, h₂⟩ => ht ▸ Matches.cat h₁ h₂⟩

theorem matches_alt_iff : Matches (alt r s) a z t ↔ Matches r a z t ∨ Matches s a z t :=
  ⟨fun h => by
    cases h with
    | altLeft h => exact Or.inl h
    | altRight h => exact Or.inr h,
    fun h => h.elim Matches.altLeft Matches.altRight⟩

/-- A repetition that does not match the empty text begins with a part that is not empty. -/
theorem matches_star_cons {c : Char} {cs : Text} (h : Matches (star r) a z (c :: cs)) :
    ∃ u v, cs = u ++ v ∧ Matches r a (z && v.isEmpty) (c :: u) ∧ Matches (star r) false z v := by
  generalize hs : star r = s at h
  generalize ht : c :: cs = t at h
  induction h with
  | starNil => exact absurd ht (List.cons_ne_nil _ _)
  | @starCons a z r' t u h₁ h₂ _ ih₂ =>
    obtain rfl := Ere.star.inj hs
    cases t with
    | nil =>
      rw [List.isEmpty_nil, Bool.and_true] at ih₂
      exact ih₂ rfl ht
    | cons x xs =>
      obtain ⟨rfl, rfl⟩ := List.cons.inj ht
      rw [List.isEmpty_cons, Bool.and_false] at h₂
      exact ⟨xs, u, rfl, h₁, h₂⟩
  | empty | chr | bol | eol | cat | altLeft | altRight => exact absurd hs (by simp)

end Meaning

/-! ## Deciding it -/

/-- Does the expression match the empty text? -/
def nullable (a z : Bool) : Ere → Bool
  | never => false
  | empty => true
  | chr _ => false
  | bol => a
  | eol => z
  | cat r s => r.nullable a z && s.nullable a z
  | alt r s => r.nullable a z || s.nullable a z
  | star _ => true

/-- `cat`, without the parts that cannot match. -/
def mkCat : Ere → Ere → Ere
  | never, _ => never
  | empty, s => s
  | r, s => cat r s

/-- `alt`, without the sides that cannot match. -/
def mkAlt : Ere → Ere → Ere
  | never, s => s
  | r, never => r
  | r, s => alt r s

/-- What is left to match after a character, which is the first of the line if `a`. -/
def deriv (a : Bool) (c : Char) : Ere → Ere
  | never => never
  | empty => never
  | chr p => if p c then empty else never
  | bol => never
  | eol => never
  | cat r s =>
    if r.nullable a false then mkAlt (mkCat (r.deriv a c) s) (s.deriv a c)
    else mkCat (r.deriv a c) s
  | alt r s => mkAlt (r.deriv a c) (s.deriv a c)
  | star r => mkCat (r.deriv a c) (star r)

/-- Does the text match, up to the end of its line? -/
def accepts : Bool → Ere → Text → Bool
  | a, r, [] => r.nullable a true
  | a, r, c :: cs => (r.deriv a c).accepts false cs

section Deciding

variable {r s : Ere} {a z : Bool} {t : Text}

theorem matches_mkCat_iff : Matches (mkCat r s) a z t ↔ Matches (cat r s) a z t := by
  rw [mkCat.eq_def]
  split
  · simp [matches_cat_iff, not_matches_never]
  · simp [matches_cat_iff, matches_empty_iff]
  · rfl

theorem matches_mkAlt_iff : Matches (mkAlt r s) a z t ↔ Matches (alt r s) a z t := by
  rw [mkAlt.eq_def]
  split
  · simp [matches_alt_iff, not_matches_never]
  · simp [matches_alt_iff, not_matches_never]
  · rfl

theorem nullable_iff : r.nullable a z = true ↔ Matches r a z [] := by
  induction r with
  | never => simp [nullable, not_matches_never]
  | empty => simp [nullable, matches_empty_iff]
  | chr p => simp [nullable, matches_chr_iff]
  | bol => simp [nullable, matches_bol_iff]
  | eol => simp [nullable, matches_eol_iff]
  | cat r s ihr ihs =>
    rw [nullable, Bool.and_eq_true, ihr, ihs, matches_cat_iff]
    constructor
    · rintro ⟨hr, hs⟩
      exact ⟨[], [], rfl, by simpa using hr, by simpa using hs⟩
    · rintro ⟨u, v, huv, hu, hv⟩
      obtain ⟨rfl, rfl⟩ := List.append_eq_nil_iff.mp huv.symm
      exact ⟨by simpa using hu, by simpa using hv⟩
  | alt r s ihr ihs => simp [nullable, matches_alt_iff, ihr, ihs]
  | star r => exact ⟨fun _ => Matches.starNil, fun _ => rfl⟩

/-- **The derivative** matches what is left. -/
theorem matches_deriv_iff {c : Char} : Matches (r.deriv a c) false z t ↔ Matches r a z (c :: t) := by
  induction r generalizing t z with
  | never => simp [deriv, not_matches_never]
  | empty => simp [deriv, matches_empty_iff, not_matches_never]
  | chr p =>
    rw [deriv, matches_chr_iff]
    cases hp : p c with
    | true => simp [matches_empty_iff, hp]
    | false => simp [not_matches_never, hp]
  | bol => simp [deriv, matches_bol_iff, not_matches_never]
  | eol => simp [deriv, matches_eol_iff, not_matches_never]
  | cat r s ihr ihs =>
    have hsplit : Matches (cat r s) a z (c :: t) ↔
        Matches (mkCat (r.deriv a c) s) false z t ∨
          (Matches r a false [] ∧ Matches (s.deriv a c) false z t) := by
      rw [matches_mkCat_iff, matches_cat_iff, matches_cat_iff, ihs]
      constructor
      · rintro ⟨u, v, h, h₁, h₂⟩
        cases u with
        | nil =>
          rw [List.nil_append] at h
          subst h
          exact Or.inr ⟨by simpa using h₁, by simpa using h₂⟩
        | cons x xs =>
          obtain ⟨rfl, rfl⟩ := List.cons.inj h
          exact Or.inl ⟨xs, v, rfl, ihr.mpr h₁, by simpa using h₂⟩
      · rintro (⟨u, v, rfl, h₁, h₂⟩ | ⟨h₁, h₂⟩)
        · exact ⟨c :: u, v, rfl, ihr.mp h₁, by simpa using h₂⟩
        · exact ⟨[], c :: t, rfl, by simpa using h₁, by simpa using h₂⟩
    rw [deriv, hsplit, ← nullable_iff]
    cases hn : r.nullable a false with
    | true => simp [matches_mkAlt_iff, matches_alt_iff]
    | false => simp
  | alt r s ihr ihs => rw [deriv, matches_mkAlt_iff, matches_alt_iff, matches_alt_iff, ihr, ihs]
  | star r ih =>
    rw [deriv, matches_mkCat_iff, matches_cat_iff]
    constructor
    · rintro ⟨u, v, rfl, h₁, h₂⟩
      exact Matches.starCons (t := c :: u) (ih.mp h₁) (by simpa using h₂)
    · intro h
      obtain ⟨u, v, rfl, h₁, h₂⟩ := matches_star_cons h
      exact ⟨u, v, rfl, ih.mpr h₁, by simpa using h₂⟩

/-- **Derivatives decide matching.** -/
theorem accepts_iff : r.accepts a t = true ↔ Matches r a true t := by
  induction t generalizing r a with
  | nil => exact nullable_iff
  | cons c cs ih => rw [accepts, ih, matches_deriv_iff]

end Deciding

/-! ## Selecting a line -/

/-- Any character. -/
def any : Ere := chr fun _ => true

/-- One character, itself. -/
def literal (c : Char) : Ere := chr (· == c)

/-- Expressions one after the other. -/
def seq (rs : List Ere) : Ere := rs.foldr cat empty

/-- Does some part of the line match? -/
def search (r : Ere) (l : Text) : Bool := (cat (star any) (cat r (star any))).accepts true l

/-- `re.match`: does the line begin with a match? -/
def matchStart (r : Ere) (l : Text) : Bool := (cat r (star any)).accepts true l

section Selecting

variable {r s : Ere} {a z : Bool} {t l : Text}

theorem matches_star_any (t : Text) : Matches (star any) a z t := by
  induction t generalizing a with
  | nil => exact Matches.starNil
  | cons c cs ih => exact Matches.starCons (t := [c]) (Matches.chr rfl) ih

/-- **Selection**: a part of the line matches where it stands. -/
theorem search_iff : r.search l = true ↔
    ∃ u v w, l = u ++ (v ++ w) ∧ Matches r u.isEmpty w.isEmpty v := by
  rw [search, accepts_iff, matches_cat_iff]
  simp only [matches_cat_iff, Bool.true_and]
  constructor
  · rintro ⟨u, _, rfl, _, v, w, rfl, hv, _⟩
    exact ⟨u, v, w, rfl, hv⟩
  · rintro ⟨u, v, w, rfl, hv⟩
    exact ⟨u, _, rfl, matches_star_any u, v, w, rfl, hv, matches_star_any w⟩

theorem matchStart_iff : r.matchStart l = true ↔ ∃ v w, l = v ++ w ∧ Matches r true w.isEmpty v := by
  rw [matchStart, accepts_iff, matches_cat_iff]
  simp only [Bool.true_and]
  exact ⟨fun ⟨v, w, h, hv, _⟩ => ⟨v, w, h, hv⟩, fun ⟨v, w, h, hv⟩ => ⟨v, w, h, hv, matches_star_any w⟩⟩

theorem matches_seq_nil : Matches (seq []) a z t ↔ t = [] := matches_empty_iff

theorem matches_seq_cons {rs : List Ere} : Matches (seq (r :: rs)) a z t ↔
    ∃ u v, t = u ++ v ∧ Matches r a (z && v.isEmpty) u ∧ Matches (seq rs) (a && u.isEmpty) z v :=
  matches_cat_iff

theorem matches_seq_bol {rs : List Ere} :
    Matches (seq (bol :: rs)) a z t ↔ a = true ∧ Matches (seq rs) a z t := by
  rw [matches_seq_cons]
  constructor
  · rintro ⟨u, v, rfl, h₁, h₂⟩
    obtain ⟨ha, rfl⟩ := matches_bol_iff.mp h₁
    exact ⟨ha, by simpa using h₂⟩
  · rintro ⟨ha, h⟩
    exact ⟨[], t, rfl, matches_bol_iff.mpr ⟨ha, rfl⟩, by simpa using h⟩

theorem matches_seq_literals {ws : Text} {rs : List Ere} :
    Matches (seq (ws.map literal ++ rs)) a z t ↔
      ∃ v, t = ws ++ v ∧ Matches (seq rs) (a && ws.isEmpty) z v := by
  induction ws generalizing a t with
  | nil => simp
  | cons c cs ih =>
    rw [List.map_cons, List.cons_append, matches_seq_cons]
    simp only [ih]
    constructor
    · rintro ⟨_, _, rfl, h₁, v, rfl, hv⟩
      obtain ⟨d, rfl, hd⟩ := matches_chr_iff.mp h₁
      obtain rfl := beq_iff_eq.mp hd
      exact ⟨v, rfl, by simpa using hv⟩
    · rintro ⟨v, rfl, hv⟩
      exact ⟨[c], cs ++ v, rfl, matches_chr_iff.mpr ⟨c, rfl, beq_self_eq_true c⟩, v, rfl,
        by simpa using hv⟩

theorem matches_seq_append_eol {rs : List Ere} (h : Matches (seq (rs ++ [eol])) a z t) : z = true := by
  induction rs generalizing a t with
  | nil =>
    obtain ⟨u, v, -, hu, hv⟩ := matches_seq_cons.mp h
    have hz := (matches_eol_iff.mp hu).1
    rw [matches_seq_nil.mp hv, List.isEmpty_nil, Bool.and_true] at hz
    exact hz
  | cons r rs ih =>
    obtain ⟨u, v, -, -, hv⟩ := matches_seq_cons.mp h
    exact ih hv

/-- An expression from `^` to `$` matches whole lines only. -/
theorem matches_of_search {rs : List Ere} (h : (seq (bol :: (rs ++ [eol]))).search l = true) :
    Matches (seq (bol :: (rs ++ [eol]))) true true l := by
  obtain ⟨u, v, w, rfl, hv⟩ := search_iff.mp h
  obtain ⟨hu, hrest⟩ := matches_seq_bol.mp hv
  have hw := matches_seq_append_eol hrest
  rw [hu, hw] at hv
  rw [List.isEmpty_iff.mp hu, List.isEmpty_iff.mp hw, List.nil_append, List.append_nil]
  exact hv

/-- A repeated class matches the texts of its characters. -/
theorem matches_star_chr {p : Char → Bool} :
    Matches (star (chr p)) a z t ↔ ∀ c ∈ t, p c = true := by
  induction t generalizing a with
  | nil => exact ⟨fun _ _ hc => absurd hc List.not_mem_nil, fun _ => Matches.starNil⟩
  | cons c cs ih =>
    constructor
    · intro h
      obtain ⟨u, v, rfl, h₁, h₂⟩ := matches_star_cons h
      obtain ⟨d, hd, hp⟩ := matches_chr_iff.mp h₁
      obtain ⟨rfl, rfl⟩ := List.cons.inj hd
      intro x hx
      rcases List.mem_cons.mp hx with rfl | hx
      · exact hp
      · exact (ih (a := false)).mp h₂ x hx
    · intro h
      exact Matches.starCons (t := [c]) (Matches.chr (h c List.mem_cons_self))
        (ih.mpr fun x hx => h x (List.mem_cons_of_mem _ hx))

end Selecting

/-! ## Characters no class accepts -/

/-- No class of the expression accepts the character. -/
def Rejects (c : Char) : Ere → Prop
  | chr p => p c = false
  | cat r s => r.Rejects c ∧ s.Rejects c
  | alt r s => r.Rejects c ∧ s.Rejects c
  | star r => r.Rejects c
  | _ => True

/-- **What an expression rejects** stands in no text it matches. -/
theorem Rejects.not_mem {c : Char} {r : Ere} {a z : Bool} {t : Text} (hr : r.Rejects c)
    (h : Matches r a z t) : c ∉ t := by
  induction h with
  | empty | bol | eol | starNil => exact List.not_mem_nil
  | chr hp =>
    intro hm
    rw [← List.mem_singleton.mp hm, show _ = false from hr] at hp
    exact absurd hp Bool.false_ne_true
  | cat _ _ ih₁ ih₂ =>
    exact fun hm => (List.mem_append.mp hm).elim (ih₁ hr.1) (ih₂ hr.2)
  | altLeft _ ih => exact ih hr.1
  | altRight _ ih => exact ih hr.2
  | starCons _ _ ih₁ ih₂ =>
    exact fun hm => (List.mem_append.mp hm).elim (ih₁ hr) (ih₂ hr)

theorem rejects_seq_iff {c : Char} {rs : List Ere} : (seq rs).Rejects c ↔ ∀ r ∈ rs, r.Rejects c := by
  induction rs with
  | nil => exact iff_of_true trivial fun r hr => absurd hr List.not_mem_nil
  | cons r rs ih =>
    rw [List.forall_mem_cons, ← ih]
    rfl

/-! ## Fields between blanks -/

section Fields

variable {p : Char → Bool} {a z : Bool} {t l f : Text} {fs : List Text}

/-- One blank or more. -/
def blanks (p : Char → Bool) : Ere := cat (chr p) (star (chr p))

theorem matches_blanks_iff : Matches (blanks p) a z t ↔ t ≠ [] ∧ ∀ c ∈ t, p c = true := by
  rw [blanks, matches_cat_iff]
  simp only [matches_chr_iff, matches_star_chr]
  constructor
  · rintro ⟨_, v, rfl, ⟨c, rfl, hc⟩, hv⟩
    exact ⟨List.cons_ne_nil _ _, List.forall_mem_cons.mpr ⟨hc, hv⟩⟩
  · rintro ⟨hne, h⟩
    obtain ⟨c, cs, rfl⟩ := List.exists_cons_of_ne_nil hne
    obtain ⟨hc, hcs⟩ := List.forall_mem_cons.mp h
    exact ⟨[c], cs, rfl, ⟨c, rfl, hc⟩, hcs⟩

/-- Fields, each after blanks, to the end of the line. -/
def laid (p : Char → Bool) : List Text → List Ere
  | [] => [star (chr p), eol]
  | f :: fs => blanks p :: (f.map literal ++ laid p fs)

/-- A text that begins with its first field. -/
theorem exists_eq_append_of_fieldsBy (hs : startsField p t = true) (h : fieldsBy p t = f :: fs) :
    ∃ v, t = f ++ v ∧ startsField p v = false ∧ fieldsBy p v = fs := by
  induction t generalizing f with
  | nil => exact absurd hs Bool.false_ne_true
  | cons c cs ih =>
    have hc : p c = false := by simpa [startsField] using hs
    cases hcs : startsField p cs with
    | false =>
      rw [fieldsBy_cons_of_not_starts hc hcs] at h
      obtain ⟨rfl, rfl⟩ := List.cons.inj h
      exact ⟨cs, rfl, hcs, rfl⟩
    | true =>
      cases cs with
      | nil => exact absurd hcs Bool.false_ne_true
      | cons d ds =>
        have hd : p d = false := by simpa [startsField] using hcs
        rw [fieldsBy_cons_cons hc hd] at h
        obtain ⟨g, gs, hg⟩ := exists_fieldsBy_cons hd ds
        rw [hg] at h
        obtain ⟨rfl, rfl⟩ := List.cons.inj h
        obtain ⟨v, hv, hv₁, hv₂⟩ := ih hcs hg
        exact ⟨v, by rw [hv]; rfl, hv₁, hv₂⟩

/-- A text with fields is blanks, its first field and the rest. -/
theorem exists_eq_of_fieldsBy (h : fieldsBy p t = f :: fs) :
    ∃ b v, t = b ++ (f ++ v) ∧ (∀ c ∈ b, p c = true) ∧ startsField p v = false ∧
      fieldsBy p v = fs := by
  have hcut := List.takeWhile_append_dropWhile (p := p) (l := t)
  have hb : ∀ c ∈ t.takeWhile p, p c = true := fun c hc => List.mem_takeWhile_imp hc
  have hrest : fieldsBy p (t.dropWhile p) = f :: fs := by
    rw [← h, ← fieldsBy_blank_append hb (t.dropWhile p), hcut]
  have hs : startsField p (t.dropWhile p) = true := by
    have hhead := List.head?_dropWhile_not p t
    cases hd : t.dropWhile p with
    | nil =>
      rw [hd] at hrest
      exact absurd hrest.symm (List.cons_ne_nil _ _)
    | cons c cs =>
      rw [hd] at hhead
      simpa [startsField] using hhead
  obtain ⟨v, hv, hv₁, hv₂⟩ := exists_eq_append_of_fieldsBy hs hrest
  exact ⟨t.takeWhile p, v, by rw [← hv, hcut], hb, hv₁, hv₂⟩

theorem matches_laid_iff (hfs : ∀ f ∈ fs, IsField p f) :
    Matches (seq (laid p fs)) a z t ↔ z = true ∧ startsField p t = false ∧ fieldsBy p t = fs := by
  induction fs generalizing a t with
  | nil =>
    rw [laid, matches_seq_cons]
    simp only [matches_star_chr, matches_seq_cons, matches_eol_iff, matches_seq_nil,
      fieldsBy_eq_nil_iff]
    constructor
    · rintro ⟨u, _, rfl, hu, _, v, rfl, ⟨hz, rfl⟩, rfl⟩
      rw [List.isEmpty_nil, Bool.and_true] at hz
      rw [List.append_nil, List.append_nil]
      refine ⟨hz, ?_, hu⟩
      cases u with
      | nil => rfl
      | cons c cs => rw [startsField, hu c List.mem_cons_self]; rfl
    · rintro ⟨hz, -, ht⟩
      exact ⟨t, [], (List.append_nil t).symm, ht, [], [], rfl, ⟨by rw [hz]; rfl, rfl⟩, rfl⟩
  | cons f fs ih =>
    obtain ⟨hf, htl⟩ := List.forall_mem_cons.mp hfs
    rw [laid, matches_seq_cons]
    simp only [matches_blanks_iff, matches_seq_literals, ih htl]
    constructor
    · rintro ⟨u, _, rfl, ⟨hne, hu⟩, v, rfl, hz, hv, hfv⟩
      refine ⟨hz, ?_, ?_⟩
      · obtain ⟨c, cs, rfl⟩ := List.exists_cons_of_ne_nil hne
        rw [List.cons_append, startsField, hu c List.mem_cons_self]
        rfl
      · rw [fieldsBy_blank_append hu, fieldsBy_append hf hv, hfv]
    · rintro ⟨hz, hs, ht⟩
      obtain ⟨b, v, rfl, hb, hv, hfv⟩ := exists_eq_of_fieldsBy ht
      refine ⟨b, _, rfl, ⟨?_, hb⟩, v, rfl, hz, hv, hfv⟩
      rintro rfl
      obtain ⟨c, cs, rfl⟩ := List.exists_cons_of_ne_nil hf.1
      rw [List.nil_append, List.cons_append, startsField, hf.2 c List.mem_cons_self] at hs
      exact absurd hs.symm Bool.false_ne_true

/-- The fields of a line, with blanks between and around them. -/
def line (p : Char → Bool) (f : Text) (fs : List Text) : Ere :=
  seq (bol :: star (chr p) :: (f.map literal ++ laid p fs))

theorem matches_line_iff (hf : IsField p f) (hfs : ∀ g ∈ fs, IsField p g) :
    Matches (line p f fs) a z t ↔ a = true ∧ z = true ∧ fieldsBy p t = f :: fs := by
  rw [line, matches_seq_bol, matches_seq_cons]
  simp only [matches_star_chr, matches_seq_literals, matches_laid_iff hfs]
  refine and_congr_right fun _ => ?_
  constructor
  · rintro ⟨u, _, rfl, hu, v, rfl, hz, hv, hfv⟩
    exact ⟨hz, by rw [fieldsBy_blank_append hu, fieldsBy_append hf hv, hfv]⟩
  · rintro ⟨hz, ht⟩
    obtain ⟨b, v, rfl, hb, hv, hfv⟩ := exists_eq_of_fieldsBy ht
    exact ⟨b, _, rfl, hb, v, rfl, hz, hv, hfv⟩

/-- **The lines selected** are those with these fields. -/
theorem search_line_iff (hf : IsField p f) (hfs : ∀ g ∈ fs, IsField p g) :
    (line p f fs).search l = true ↔ fieldsBy p l = f :: fs := by
  rw [search_iff]
  simp only [matches_line_iff hf hfs, List.isEmpty_iff]
  constructor
  · rintro ⟨u, v, w, rfl, rfl, rfl, h⟩
    rwa [List.nil_append, List.append_nil]
  · intro h
    exact ⟨[], l, [], by rw [List.append_nil, List.nil_append], rfl, rfl, h⟩

theorem matchStart_line_iff (hf : IsField p f) (hfs : ∀ g ∈ fs, IsField p g) :
    (line p f fs).matchStart l = true ↔ fieldsBy p l = f :: fs := by
  rw [matchStart_iff]
  simp only [matches_line_iff hf hfs, List.isEmpty_iff, true_and]
  constructor
  · rintro ⟨v, w, rfl, rfl, h⟩
    rwa [List.append_nil]
  · intro h
    exact ⟨l, [], (List.append_nil l).symm, rfl, h⟩

/-! ### The first fields of a line, and the last -/

/-- Fields, each after blanks, and a blank after the last. -/
def opened (p : Char → Bool) : List Text → List Ere
  | [] => [blanks p]
  | f :: fs => blanks p :: (f.map literal ++ opened p fs)

/-- The text ends with a blank. -/
def EndsBlank (p : Char → Bool) (t : Text) : Prop := ∃ u c, t = u ++ [c] ∧ p c = true

theorem EndsBlank.append {u : Text} (h : EndsBlank p t) : EndsBlank p (u ++ t) := by
  obtain ⟨v, c, rfl, hc⟩ := h
  exact ⟨u ++ v, c, (List.append_assoc _ _ _).symm, hc⟩

theorem EndsBlank.of_append {u : Text} (h : EndsBlank p (u ++ t)) (hne : t ≠ []) : EndsBlank p t := by
  obtain ⟨v, c, hv, hc⟩ := h
  obtain ⟨t', d, rfl⟩ := (List.eq_nil_or_concat' t).resolve_left hne
  rw [← List.append_assoc] at hv
  obtain ⟨-, hd⟩ := List.append_inj' hv rfl
  exact ⟨t', d, rfl, by rw [List.singleton_inj.mp hd]; exact hc⟩

theorem endsBlank_of_blank (hne : t ≠ []) (h : ∀ c ∈ t, p c = true) : EndsBlank p t := by
  obtain ⟨u, c, rfl⟩ := (List.eq_nil_or_concat' t).resolve_left hne
  exact ⟨u, c, rfl, h c (List.mem_append_right _ (List.mem_singleton_self c))⟩

theorem EndsBlank.append_blank {u : Text} (h : EndsBlank p t) (hu : ∀ c ∈ u, p c = true) :
    EndsBlank p (t ++ u) := by
  by_cases hne : u = []
  · rwa [hne, List.append_nil]
  · exact (endsBlank_of_blank hne hu).append

theorem not_endsBlank_of_isField (hf : IsField p f) : ¬ EndsBlank p f := by
  rintro ⟨u, c, rfl, hc⟩
  rw [hf.2 c (List.mem_append_right _ (List.mem_singleton_self c))] at hc
  exact absurd hc Bool.false_ne_true

theorem matches_opened_iff (hfs : ∀ f ∈ fs, IsField p f) : Matches (seq (opened p fs)) a z t ↔
    startsField p t = false ∧ fieldsBy p t = fs ∧ EndsBlank p t := by
  induction fs generalizing a t with
  | nil =>
    rw [opened, matches_seq_cons]
    simp only [matches_blanks_iff, matches_seq_nil, fieldsBy_eq_nil_iff]
    constructor
    · rintro ⟨u, _, rfl, ⟨hne, hu⟩, rfl⟩
      rw [List.append_nil]
      refine ⟨?_, hu, endsBlank_of_blank hne hu⟩
      obtain ⟨c, cs, rfl⟩ := List.exists_cons_of_ne_nil hne
      rw [startsField, hu c List.mem_cons_self]
      rfl
    · rintro ⟨-, ht, u, c, rfl, -⟩
      exact ⟨u ++ [c], [], (List.append_nil _).symm, ⟨by simp, ht⟩, rfl⟩
  | cons f fs ih =>
    obtain ⟨hf, htl⟩ := List.forall_mem_cons.mp hfs
    rw [opened, matches_seq_cons]
    simp only [matches_blanks_iff, matches_seq_literals, ih htl]
    constructor
    · rintro ⟨u, _, rfl, ⟨hne, hu⟩, v, rfl, hv, hfv, hend⟩
      refine ⟨?_, by rw [fieldsBy_blank_append hu, fieldsBy_append hf hv, hfv], hend.append.append⟩
      obtain ⟨c, cs, rfl⟩ := List.exists_cons_of_ne_nil hne
      rw [List.cons_append, startsField, hu c List.mem_cons_self]
      rfl
    · rintro ⟨hs, ht, hend⟩
      obtain ⟨b, v, rfl, hb, hv, hfv⟩ := exists_eq_of_fieldsBy ht
      refine ⟨b, _, rfl, ⟨?_, hb⟩, v, rfl, hv, hfv, ?_⟩
      · rintro rfl
        obtain ⟨c, cs, rfl⟩ := List.exists_cons_of_ne_nil hf.1
        rw [List.nil_append, List.cons_append, startsField, hf.2 c List.mem_cons_self] at hs
        exact absurd hs.symm Bool.false_ne_true
      · have hfv' := hend.of_append fun e => hf.1 (List.append_eq_nil_iff.mp e).1
        refine hfv'.of_append fun e => ?_
        rw [e, List.append_nil] at hfv'
        exact not_endsBlank_of_isField hf hfv'

/-- The first fields of a line, and a blank after them. -/
def lineBegin (p : Char → Bool) (f : Text) (fs : List Text) : Ere :=
  seq (bol :: star (chr p) :: (f.map literal ++ opened p fs))

theorem matches_lineBegin_iff (hf : IsField p f) (hfs : ∀ g ∈ fs, IsField p g) :
    Matches (lineBegin p f fs) a z t ↔ a = true ∧ fieldsBy p t = f :: fs ∧ EndsBlank p t := by
  rw [lineBegin, matches_seq_bol, matches_seq_cons]
  simp only [matches_star_chr, matches_seq_literals, matches_opened_iff hfs]
  refine and_congr_right fun _ => ?_
  constructor
  · rintro ⟨u, _, rfl, hu, v, rfl, hv, hfv, hend⟩
    exact ⟨by rw [fieldsBy_blank_append hu, fieldsBy_append hf hv, hfv], hend.append.append⟩
  · rintro ⟨ht, hend⟩
    obtain ⟨b, v, rfl, hb, hv, hfv⟩ := exists_eq_of_fieldsBy ht
    refine ⟨b, _, rfl, hb, v, rfl, hv, hfv, ?_⟩
    have hfv' := hend.of_append fun e => hf.1 (List.append_eq_nil_iff.mp e).1
    refine hfv'.of_append fun e => ?_
    rw [e, List.append_nil] at hfv'
    exact not_endsBlank_of_isField hf hfv'

/-- A line begins with fields and a blank iff they are its first fields, and more follow or a blank. -/
theorem exists_append_iff (hne : fs ≠ []) :
    (∃ v w, l = v ++ w ∧ fieldsBy p v = fs ∧ EndsBlank p v) ↔
      ∃ gs, fieldsBy p l = fs ++ gs ∧ (gs ≠ [] ∨ EndsBlank p l) := by
  constructor
  · rintro ⟨_, w, rfl, hv, u, c, rfl, hc⟩
    refine ⟨fieldsBy p w, ?_, ?_⟩
    · rw [List.append_assoc, List.singleton_append, fieldsBy_append_cons_sep hc, ← hv,
        fieldsBy_append_cons_sep hc, fieldsBy_nil, List.append_nil]
    · by_cases hw : fieldsBy p w = []
      · exact Or.inr (EndsBlank.append_blank ⟨u, c, rfl, hc⟩ (fieldsBy_eq_nil_iff.mp hw))
      · exact Or.inl hw
  · rintro ⟨gs, hl, hmore⟩
    induction fs generalizing l with
    | nil => exact absurd rfl hne
    | cons f fs ih =>
      have hf : IsField p f := isField_of_mem_fieldsBy (t := l) (hl ▸ List.mem_cons_self)
      obtain ⟨b, v, rfl, hb, hv, hfv⟩ := exists_eq_of_fieldsBy hl
      have hfirst : ∀ v', startsField p v' = false →
          fieldsBy p (b ++ (f ++ v')) = f :: fieldsBy p v' := fun v' hv' => by
        rw [fieldsBy_blank_append hb, fieldsBy_append hf hv']
      have hend : gs ≠ [] ∨ v ≠ [] ∧ EndsBlank p v := by
        refine hmore.imp_right fun h => ?_
        have hfv' := h.of_append fun e => hf.1 (List.append_eq_nil_iff.mp e).1
        have hvne : v ≠ [] := fun e => by
          rw [e, List.append_nil] at hfv'
          exact not_endsBlank_of_isField hf hfv'
        exact ⟨hvne, hfv'.of_append hvne⟩
      by_cases hfs : fs = []
      · -- a blank follows the field
        have hvne : v ≠ [] := by
          rcases hend with h | h
          · rintro rfl
            rw [hfs] at hfv
            exact h hfv.symm
          · exact h.1
        obtain ⟨c, w, rfl⟩ := List.exists_cons_of_ne_nil hvne
        have hc : p c = true := by simpa [startsField] using hv
        refine ⟨b ++ (f ++ [c]), w, by simp, ?_, b ++ f, c, (List.append_assoc _ _ _).symm, hc⟩
        rw [hfirst [c] (by simp [startsField, hc]), hfs, fieldsBy_cons_sep hc, fieldsBy_nil]
      · obtain ⟨v', w, rfl, hv', hend'⟩ := ih hfs hfv (hend.imp_right fun h => h.2)
        refine ⟨b ++ (f ++ v'), w, by simp, ?_, hend'.append.append⟩
        have hstart : startsField p v' = false := by
          cases v' with
          | nil => rfl
          | cons c cs => exact hv
        rw [hfirst v' hstart, hv']

theorem matchStart_lineBegin_iff (hf : IsField p f) (hfs : ∀ g ∈ fs, IsField p g) :
    (lineBegin p f fs).matchStart l = true ↔
      ∃ gs, fieldsBy p l = f :: fs ++ gs ∧ (gs ≠ [] ∨ EndsBlank p l) := by
  rw [matchStart_iff, ← exists_append_iff (List.cons_ne_nil f fs)]
  simp only [matches_lineBegin_iff hf hfs, true_and]

theorem search_lineBegin_iff (hf : IsField p f) (hfs : ∀ g ∈ fs, IsField p g) :
    (lineBegin p f fs).search l = true ↔
      ∃ gs, fieldsBy p l = f :: fs ++ gs ∧ (gs ≠ [] ∨ EndsBlank p l) := by
  rw [search_iff, ← exists_append_iff (List.cons_ne_nil f fs)]
  simp only [matches_lineBegin_iff hf hfs, List.isEmpty_iff]
  constructor
  · rintro ⟨u, v, w, rfl, rfl, hv⟩
    exact ⟨v, w, rfl, hv⟩
  · rintro ⟨v, w, rfl, hv⟩
    exact ⟨[], v, w, rfl, rfl, hv⟩

/-- A blank, a field and blanks, to the end of the line. -/
def lineEnd (p : Char → Bool) (f : Text) : Ere := seq (chr p :: (f.map literal ++ laid p []))

/-- **The end of a line selects** the lines with this last field, and a blank before it. -/
theorem search_lineEnd_iff : (lineEnd p f).search l = true ↔
    ∃ u c b, l = u ++ c :: (f ++ b) ∧ p c = true ∧ ∀ x ∈ b, p x = true := by
  have hnil : ∀ g ∈ ([] : List Text), IsField p g := fun _ hg => absurd hg List.not_mem_nil
  rw [search_iff]
  simp only [lineEnd, matches_seq_cons, matches_chr_iff, matches_seq_literals, matches_laid_iff hnil,
    fieldsBy_eq_nil_iff, List.isEmpty_iff]
  constructor
  · rintro ⟨u, _, w, rfl, _, _, rfl, ⟨c, rfl, hc⟩, b, rfl, rfl, -, hb⟩
    exact ⟨u, c, b, by simp, hc, hb⟩
  · rintro ⟨u, c, b, rfl, hc, hb⟩
    refine ⟨u, c :: (f ++ b), [], by simp, [c], f ++ b, rfl, ⟨c, rfl, hc⟩, b, rfl, rfl, ?_, hb⟩
    cases b with
    | nil => rfl
    | cons x xs => rw [startsField, hb x List.mem_cons_self]; rfl

/-- The last of several fields has a blank before it. -/
theorem exists_of_fieldsBy_append (h : fieldsBy p l = fs ++ [f]) (hne : fs ≠ []) :
    ∃ u c b, l = u ++ c :: (f ++ b) ∧ p c = true ∧ ∀ x ∈ b, p x = true := by
  induction fs generalizing l with
  | nil => exact absurd rfl hne
  | cons g gs ih =>
    obtain ⟨b₀, v, rfl, -, hv, hfv⟩ := exists_eq_of_fieldsBy h
    by_cases hgs : gs = []
    · rw [hgs] at hfv
      have hf : IsField p f := isField_of_mem_fieldsBy (t := v) (hfv ▸ List.mem_singleton_self f)
      obtain ⟨b₁, v', rfl, hb₁, -, hnil⟩ := exists_eq_of_fieldsBy hfv
      have hb₁ne : b₁ ≠ [] := by
        rintro rfl
        obtain ⟨c, cs, rfl⟩ := List.exists_cons_of_ne_nil hf.1
        rw [List.nil_append, List.cons_append, startsField, hf.2 c List.mem_cons_self] at hv
        exact absurd hv.symm Bool.false_ne_true
      obtain ⟨b', c, rfl⟩ := (List.eq_nil_or_concat' b₁).resolve_left hb₁ne
      exact ⟨b₀ ++ (g ++ b'), c, v', by simp,
        hb₁ c (List.mem_append_right _ (List.mem_singleton_self c)), fieldsBy_eq_nil_iff.mp hnil⟩
    · obtain ⟨u, c, b, rfl, hc, hb⟩ := ih hfv hgs
      exact ⟨b₀ ++ (g ++ u), c, b, by simp, hc, hb⟩

/-- **The end of a line selects** the lines with this last field, among those with several. -/
theorem search_lineEnd_iff_getLast? (hf : IsField p f) (hlen : 1 < (fieldsBy p l).length) :
    (lineEnd p f).search l = true ↔ (fieldsBy p l).getLast? = some f := by
  rw [search_lineEnd_iff]
  constructor
  · rintro ⟨u, c, b, rfl, hc, hb⟩
    have hlast : fieldsBy p (f ++ b) = [f] := by
      rw [fieldsBy_append_blank hb, fieldsBy_of_isField hf]
    rw [fieldsBy_append_cons_sep hc, hlast, List.getLast?_append_of_ne_nil _ (List.cons_ne_nil _ _)]
    rfl
  · intro h
    obtain ⟨fs, hfs⟩ := List.getLast?_eq_some_iff.mp h
    refine exists_of_fieldsBy_append hfs fun e => ?_
    rw [hfs, e] at hlen
    exact absurd hlen (by simp)

end Fields

end Ere

end LabInABox.Text
