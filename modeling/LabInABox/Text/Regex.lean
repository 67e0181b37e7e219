import LabInABox.Text.Lines

/-!
# Basic regular expressions, as `sed` reads them

`Re` is a regular expression over character classes with its meaning `Matches`. `accepts` decides it
by derivatives, so an expression of a shell command can be run on a line.

`parseBre` reads a POSIX basic regular expression: ordinary characters, `.`, `*`, bracket
expressions with ranges and the named classes used here, `\` before a special character, and the
anchors at the two ends. Anything else (groups, intervals, back references, the GNU escapes, a bare
`/`, which would end a `sed` address) reads as `none`.

Results:
* `accepts_iff`: the derivatives decide `Matches`.
* `Bre.search_iff`: a line is selected iff some part of it matches, at the ends that are anchored.
* `parseBre_plain`, `search_plain_iff`: an anchored expression without special characters selects
  the lines that begin with it.
-/

namespace LabInABox.Text

/-! ## Regular expressions -/

/-- A regular expression over character classes. -/
inductive Re
  | never
  | empty
  | chr (p : Char → Bool)
  | cat (r s : Re)
  | alt (r s : Re)
  | star (r : Re)

namespace Re

/-- The texts an expression stands for. -/
inductive Matches : Re → Text → Prop
  | empty : Matches .empty []
  | chr {p : Char → Bool} {c : Char} (h : p c = true) : Matches (.chr p) [c]
  | cat {r s : Re} {t u : Text} (h₁ : Matches r t) (h₂ : Matches s u) : Matches (.cat r s) (t ++ u)
  | altLeft {r s : Re} {t : Text} (h : Matches r t) : Matches (.alt r s) t
  | altRight {r s : Re} {t : Text} (h : Matches s t) : Matches (.alt r s) t
  | starNil {r : Re} : Matches (.star r) []
  | starCons {r : Re} {t u : Text} (h₁ : Matches r t) (h₂ : Matches (.star r) u) :
      Matches (.star r) (t ++ u)

/-- Does the expression match the empty text? -/
def nullable : Re → Bool
  | never => false
  | empty => true
  | chr _ => false
  | cat r s => r.nullable && s.nullable
  | alt r s => r.nullable || s.nullable
  | star _ => true

/-- `cat`, without the parts that cannot match. -/
def mkCat : Re → Re → Re
  | never, _ => never
  | empty, s => s
  | r, s => cat r s

/-- `alt`, without the sides that cannot match. -/
def mkAlt : Re → Re → Re
  | never, s => s
  | r, never => r
  | r, s => alt r s

/-- What is left to match after a character. -/
def deriv (c : Char) : Re → Re
  | never => never
  | empty => never
  | chr p => if p c then empty else never
  | cat r s => if r.nullable then mkAlt (mkCat (r.deriv c) s) (s.deriv c) else mkCat (r.deriv c) s
  | alt r s => mkAlt (r.deriv c) (s.deriv c)
  | star r => mkCat (r.deriv c) (star r)

/-- Does the whole text match? -/
def accepts : Re → Text → Bool
  | r, [] => r.nullable
  | r, c :: cs => (r.deriv c).accepts cs

theorem not_matches_never {t : Text} : ¬ Matches never t := nofun

theorem matches_empty_iff {t : Text} : Matches empty t ↔ t = [] :=
  ⟨fun h => by cases h; rfl, fun h => h ▸ Matches.empty⟩

theorem matches_chr_iff {p : Char → Bool} {t : Text} : Matches (chr p) t ↔ ∃ c, t = [c] ∧ p c = true :=
  ⟨fun h => by cases h with | chr h => exact ⟨_, rfl, h⟩, fun ⟨_, ht, h⟩ => ht ▸ Matches.chr h⟩

theorem matches_cat_iff {r s : Re} {t : Text} :
    Matches (cat r s) t ↔ ∃ u v, t = u ++ v ∧ Matches r u ∧ Matches s v :=
  ⟨fun h => by cases h with | cat h₁ h₂ => exact ⟨_, _, rfl, h₁, h₂⟩,
    fun ⟨_, _, ht, h₁, h₂⟩ => ht ▸ Matches.cat h₁ h₂⟩

theorem matches_alt_iff {r s : Re} {t : Text} : Matches (alt r s) t ↔ Matches r t ∨ Matches s t :=
  ⟨fun h => by
    cases h with
    | altLeft h => exact Or.inl h
    | altRight h => exact Or.inr h,
    fun h => h.elim Matches.altLeft Matches.altRight⟩

theorem matches_mkCat_iff {r s : Re} {t : Text} : Matches (mkCat r s) t ↔ Matches (cat r s) t := by
  rw [mkCat.eq_def]
  split
  · simp [matches_cat_iff, not_matches_never]
  · simp [matches_cat_iff, matches_empty_iff]
  · rfl

theorem matches_mkAlt_iff {r s : Re} {t : Text} : Matches (mkAlt r s) t ↔ Matches (alt r s) t := by
  rw [mkAlt.eq_def]
  split
  · simp [matches_alt_iff, not_matches_never]
  · simp [matches_alt_iff, not_matches_never]
  · rfl

theorem nullable_iff {r : Re} : r.nullable = true ↔ Matches r [] := by
  induction r with
  | never => simp [nullable, not_matches_never]
  | empty => simp [nullable, matches_empty_iff]
  | chr p => simp [nullable, matches_chr_iff]
  | cat r s ihr ihs => simp [nullable, matches_cat_iff, ihr, ihs]
  | alt r s ihr ihs => simp [nullable, matches_alt_iff, ihr, ihs]
  | star r => exact ⟨fun _ => Matches.starNil, fun _ => rfl⟩

/-- A repetition that does not match the empty text begins with a part that is not empty. -/
theorem matches_star_cons {r : Re} {c : Char} {cs : Text} (h : Matches (star r) (c :: cs)) :
    ∃ u v, cs = u ++ v ∧ Matches r (c :: u) ∧ Matches (star r) v := by
  generalize hs : star r = s at h
  generalize ht : c :: cs = t at h
  induction h with
  | starNil => exact absurd ht (List.cons_ne_nil _ _)
  | @starCons r' t u h₁ h₂ _ ih₂ =>
    obtain rfl := Re.star.inj hs
    cases t with
    | nil => exact ih₂ rfl ht
    | cons x xs =>
      obtain ⟨rfl, rfl⟩ := List.cons.inj ht
      exact ⟨xs, u, rfl, h₁, h₂⟩
  | empty | chr | cat | altLeft | altRight => exact absurd hs (by simp)

/-- **The derivative** matches what is left. -/
theorem matches_deriv_iff {c : Char} {r : Re} {t : Text} :
    Matches (r.deriv c) t ↔ Matches r (c :: t) := by
  induction r generalizing t with
  | never => simp [deriv, not_matches_never]
  | empty => simp [deriv, matches_empty_iff, not_matches_never]
  | chr p =>
    rw [deriv, matches_chr_iff]
    cases hp : p c with
    | true => simp [matches_empty_iff, hp]
    | false => simp [not_matches_never, hp]
  | cat r s ihr ihs =>
    have hsplit : Matches (cat r s) (c :: t) ↔
        Matches (mkCat (r.deriv c) s) t ∨ (Matches r [] ∧ Matches (s.deriv c) t) := by
      rw [matches_mkCat_iff, matches_cat_iff, matches_cat_iff, ihs]
      constructor
      · rintro ⟨u, v, h, h₁, h₂⟩
        cases u with
        | nil =>
          rw [List.nil_append] at h
          exact Or.inr ⟨h₁, h ▸ h₂⟩
        | cons x xs =>
          obtain ⟨rfl, rfl⟩ := List.cons.inj h
          exact Or.inl ⟨xs, v, rfl, ihr.mpr h₁, h₂⟩
      · rintro (⟨u, v, rfl, h₁, h₂⟩ | ⟨h₁, h₂⟩)
        · exact ⟨c :: u, v, rfl, ihr.mp h₁, h₂⟩
        · exact ⟨[], c :: t, rfl, h₁, h₂⟩
    rw [deriv, hsplit, ← nullable_iff]
    cases hn : r.nullable with
    | true => simp [matches_mkAlt_iff, matches_alt_iff]
    | false => simp
  | alt r s ihr ihs => rw [deriv, matches_mkAlt_iff, matches_alt_iff, matches_alt_iff, ihr, ihs]
  | star r ih =>
    rw [deriv, matches_mkCat_iff, matches_cat_iff]
    constructor
    · rintro ⟨u, v, rfl, h₁, h₂⟩
      exact Matches.starCons (ih.mp h₁) h₂
    · intro h
      obtain ⟨u, v, rfl, h₁, h₂⟩ := matches_star_cons h
      exact ⟨u, v, rfl, ih.mpr h₁, h₂⟩

/-- **Derivatives decide matching.** -/
theorem accepts_iff {r : Re} {t : Text} : r.accepts t = true ↔ Matches r t := by
  induction t generalizing r with
  | nil => exact nullable_iff
  | cons c cs ih => rw [accepts, ih, matches_deriv_iff]

/-- Any character. -/
def any : Re := chr fun _ => true

theorem matches_star_any (t : Text) : Matches (star any) t := by
  induction t with
  | nil => exact Matches.starNil
  | cons c cs ih => exact Matches.starCons (Matches.chr (c := c) rfl) ih

/-- One character, itself. -/
def literal (c : Char) : Re := chr (· == c)

/-- Expressions one after the other. -/
def seq (rs : List Re) : Re := rs.foldr cat empty

theorem matches_seq_literals {ws : Text} {rs : List Re} {t : Text} :
    Matches (seq (ws.map literal ++ rs)) t ↔ ∃ u, t = ws ++ u ∧ Matches (seq rs) u := by
  induction ws generalizing t with
  | nil => simp
  | cons c cs ih =>
    have hseq : seq ((c :: cs).map literal ++ rs) = cat (literal c) (seq (cs.map literal ++ rs)) := rfl
    rw [hseq, matches_cat_iff]
    constructor
    · rintro ⟨x, y, rfl, h₁, h₂⟩
      obtain ⟨d, rfl, hd⟩ := matches_chr_iff.mp h₁
      obtain ⟨u, rfl, hu⟩ := ih.mp h₂
      exact ⟨u, by rw [beq_iff_eq.mp hd]; rfl, hu⟩
    · rintro ⟨u, rfl, hu⟩
      exact ⟨[c], cs ++ u, rfl, Matches.chr (beq_self_eq_true c), ih.mpr ⟨u, rfl, hu⟩⟩

end Re

/-! ## Reading a basic regular expression -/

/-- `[:space:]`, over ASCII. -/
def posixSpace (c : Char) : Bool := c = ' ' || (9 ≤ c.toNat && c.toNat ≤ 13)

theorem isSpace_of_posixSpace {c : Char} (h : posixSpace c = true) : isSpace c = true := by
  simp only [posixSpace, Bool.or_eq_true, Bool.and_eq_true, decide_eq_true_eq] at h
  rcases h with rfl | h
  · decide
  · simp only [isSpace, Bool.or_eq_true, Bool.and_eq_true, decide_eq_true_eq, beq_iff_eq]
    omega

/-- The class names of bracket expressions, over ASCII. -/
def posixClass (name : Text) : Option (Char → Bool) :=
  if name = "space".toList then some posixSpace
  else if name = "blank".toList then some fun c => c = ' ' || c = '\t'
  else if name = "digit".toList then some Char.isDigit
  else if name = "alpha".toList then some Char.isAlpha
  else if name = "alnum".toList then some Char.isAlphanum
  else none

/-- The items of a bracket expression up to its `]`, and what follows it. -/
def bracketItems : Nat → Text → Option ((Char → Bool) × Text)
  | 0, _ => none
  | _ + 1, [] => none
  | _ + 1, ']' :: cs => some (fun _ => false, cs)
  | n + 1, '[' :: ':' :: cs =>
    let name := cs.takeWhile (· != ':')
    match cs.drop name.length with
    | ':' :: ']' :: rest => do
      let p ← posixClass name
      let (q, rest) ← bracketItems n rest
      some (fun c => p c || q c, rest)
    | _ => none
  | _ + 1, '[' :: '.' :: _ => none
  | _ + 1, '[' :: '=' :: _ => none
  | n + 1, a :: '-' :: b :: cs =>
    if b = ']' then do
      let (q, rest) ← bracketItems n ('-' :: b :: cs)
      some (fun c => c == a || q c, rest)
    else do
      let (q, rest) ← bracketItems n cs
      some (fun c => (a.toNat ≤ c.toNat && c.toNat ≤ b.toNat) || q c, rest)
  | n + 1, a :: cs => do
    let (q, rest) ← bracketItems n cs
    some (fun c => c == a || q c, rest)

/-- A bracket expression after its `[`: a `^` negates it, and a `]` that comes first is itself. -/
def bracket (t : Text) : Option (Re × Text) :=
  let (negated, items) := match t with
    | '^' :: cs => (true, cs)
    | cs => (false, cs)
  let (first, items) := match items with
    | ']' :: cs => (true, cs)
    | cs => (false, cs)
  -- a range from a `]` that comes first is left out
  if first && items.head? == some '-' then none
  else (bracketItems (items.length + 1) items).map fun (p, rest) =>
    (.chr fun c => (p c || (first && c == ']')) != negated, rest)

/-- The characters that stand for themselves after a `\`. -/
def escapable : Text := ".[]*^$\\/".toList

/-- One item of an expression, and what follows it. -/
def atom : Text → Option (Re × Text)
  | [] => none
  | '\\' :: cs => match cs with
    | c :: rest => if c ∈ escapable then some (.literal c, rest) else none
    | [] => none
  | '[' :: cs => bracket cs
  | '.' :: cs => some (.any, cs)
  | '/' :: _ => none
  | c :: cs => some (.literal c, cs)

/-- The items of an expression, and whether a `$` anchors its end. `n` bounds their number. -/
def items : Nat → Text → Option (List Re × Bool)
  | _, [] => some ([], false)
  | 0, _ :: _ => none
  | n + 1, t =>
    if t = ['$'] then some ([], true)
    else do
      let (r, rest) ← atom t
      let stars := rest.takeWhile (· == '*')
      let (rs, end_) ← items n (rest.drop stars.length)
      some ((if stars = [] then r else .star r) :: rs, end_)

/-- A basic regular expression: its body and its anchors. -/
structure Bre where
  /-- `^` at the beginning. -/
  anchoredStart : Bool
  /-- The expression between the anchors. -/
  body : List Re
  /-- `$` at the end. -/
  anchoredEnd : Bool

/-- Read a basic regular expression. -/
def parseBre (t : Text) : Option Bre :=
  match t with
  | '^' :: cs => (items cs.length cs).map fun (rs, e) => ⟨true, rs, e⟩
  | cs => (items cs.length cs).map fun (rs, e) => ⟨false, rs, e⟩

namespace Bre

/-- Is a line selected? -/
def search (b : Bre) (l : Text) : Bool :=
  (Re.cat (if b.anchoredStart then .empty else .star .any)
    (.cat (.seq b.body) (if b.anchoredEnd then .empty else .star .any))).accepts l

/-- **Selection**: a part of the line matches, at each end that is anchored. -/
theorem search_iff {b : Bre} {l : Text} : b.search l = true ↔
    ∃ u v w, l = u ++ (v ++ w) ∧ Re.Matches (.seq b.body) v ∧
      (b.anchoredStart = true → u = []) ∧ (b.anchoredEnd = true → w = []) := by
  have hopt : ∀ (a : Bool) (t : Text),
      Re.Matches (if a = true then .empty else .star .any) t ↔ (a = true → t = []) := fun a t => by
    cases a with
    | true => simp [Re.matches_empty_iff]
    | false => simp [Re.matches_star_any]
  rw [search, Re.accepts_iff, Re.matches_cat_iff]
  simp only [Re.matches_cat_iff, hopt]
  constructor
  · rintro ⟨u, _, rfl, hu, v, w, rfl, hv, hw⟩
    exact ⟨u, v, w, rfl, hv, hu, hw⟩
  · rintro ⟨u, v, w, rfl, hv, hu, hw⟩
    exact ⟨u, _, rfl, hu, v, w, rfl, hv, hw⟩

end Bre

/-! ## Escaped literals -/

/-- A character with no meaning of its own in an expression. -/
def Plain (c : Char) : Prop := c ∉ "\\[.*^$/".toList

instance (c : Char) : Decidable (Plain c) := inferInstanceAs (Decidable (c ∉ _))

/-- `t.replace(".", "\\.")`. -/
def escapeDots (t : Text) : Text := t.flatMap fun c => if c = '.' then ['\\', '.'] else [c]

theorem escapeDots_of_plain {t : Text} (h : ∀ c ∈ t, Plain c) : escapeDots t = t := by
  induction t with
  | nil => rfl
  | cons c cs ih =>
    have hc : c ≠ '.' := by
      rintro rfl
      exact h '.' List.mem_cons_self (by decide)
    rw [escapeDots, List.flatMap_cons, if_neg hc, ← escapeDots,
      ih fun x hx => h x (List.mem_cons_of_mem _ hx)]
    rfl

theorem length_le_escapeDots (t : Text) : t.length ≤ (escapeDots t).length := by
  induction t with
  | nil => exact Nat.le_refl 0
  | cons c cs ih =>
    rw [escapeDots, List.flatMap_cons, ← escapeDots, List.length_append, List.length_cons]
    split
    · simp only [List.length_cons, List.length_nil]
      omega
    · rw [List.length_singleton]
      omega

theorem parseBre_of_head? {t : Text} (h : t.head? ≠ some '^') :
    parseBre t = (items t.length t).map fun (rs, e) => ⟨false, rs, e⟩ := by
  rw [parseBre]
  rintro cs rfl
  exact h rfl

theorem atom_plain {c : Char} (h : Plain c) (cs : Text) : atom (c :: cs) = some (.literal c, cs) := by
  have hne : ∀ d ∈ "\\[.*^$/".toList, c ≠ d := fun d hd e => h (e ▸ hd)
  rw [atom]
  · exact hne '\\' (by decide)
  · exact hne '[' (by decide)
  · exact hne '.' (by decide)
  · exact hne '/' (by decide)

theorem head?_escapeDots_append {t rest : Text} (h : ∀ c ∈ t, Plain c ∨ c = '.')
    (hrest : rest.head? ≠ some '*') : (escapeDots t ++ rest).head? ≠ some '*' := by
  cases t with
  | nil => exact hrest
  | cons c cs =>
    rw [escapeDots, List.flatMap_cons]
    split
    · simp
    · have hc : c ≠ '*' := by
        rintro rfl
        rcases h '*' List.mem_cons_self with h | h
        · exact h (by decide)
        · exact absurd h (by decide)
      simpa using hc

/-- An item with no star after it. -/
theorem items_atom {t rest : Text} {r : Re} {n : Nat} (hne : t ≠ []) (hd : t ≠ ['$'])
    (hatom : atom t = some (r, rest)) (hrest : rest.head? ≠ some '*') :
    items (n + 1) t = (items n rest).map fun (rs, e) => (r :: rs, e) := by
  have hstars : rest.takeWhile (· == '*') = [] := by
    cases rest with
    | nil => rfl
    | cons x xs =>
      rw [List.takeWhile_cons_of_neg]
      simpa using hrest
  rw [items]
  · rw [if_neg hd, hatom]
    simp only [Option.bind_eq_bind, Option.bind_some, hstars, List.length_nil, List.drop_zero, if_true]
    cases items n rest <;> rfl
  · exact hne

/-- Escaped literals are read as themselves. -/
theorem items_escapeDots {t rest : Text} (h : ∀ c ∈ t, Plain c ∨ c = '.')
    (hrest : rest.head? ≠ some '*') (n : Nat) :
    items (t.length + n) (escapeDots t ++ rest) =
      (items n rest).map fun (rs, e) => (t.map Re.literal ++ rs, e) := by
  induction t with
  | nil =>
    rw [List.length_nil, Nat.zero_add]
    change items n rest = _
    cases items n rest <;> rfl
  | cons c cs ih =>
    have htl : ∀ x ∈ cs, Plain x ∨ x = '.' := fun x hx => h x (List.mem_cons_of_mem _ hx)
    have hhead := head?_escapeDots_append htl hrest
    have hlen : (c :: cs).length + n = (cs.length + n) + 1 := by rw [List.length_cons]; omega
    have hstep : items (cs.length + n + 1) (escapeDots (c :: cs) ++ rest) =
        (items (cs.length + n) (escapeDots cs ++ rest)).map fun (rs, e) => (.literal c :: rs, e) := by
      by_cases hc : c = '.'
      · subst hc
        exact items_atom (t := '\\' :: '.' :: (escapeDots cs ++ rest)) (by simp) (by simp) rfl hhead
      · have hp := (h c List.mem_cons_self).resolve_right hc
        have he : escapeDots (c :: cs) ++ rest = c :: (escapeDots cs ++ rest) := by
          rw [escapeDots, List.flatMap_cons, if_neg hc]
          rfl
        rw [he]
        refine items_atom (by simp) (fun e => ?_) (atom_plain hp _) hhead
        obtain ⟨rfl, -⟩ := List.cons.inj e
        exact hp (by decide)
    rw [hlen, hstep, ih htl]
    cases items n rest <;> rfl

theorem parseBre_plain {ws : Text} (h : ∀ c ∈ ws, Plain c) :
    parseBre ('^' :: ws) = some ⟨true, ws.map .literal, false⟩ := by
  have hi : items (ws.length + 0) (escapeDots ws ++ []) = _ :=
    items_escapeDots (fun c hc => Or.inl (h c hc)) (by simp) 0
  rw [escapeDots_of_plain h, List.append_nil, Nat.add_zero] at hi
  rw [parseBre, hi]
  simp [items]

theorem search_plain_iff {ws l : Text} :
    (Bre.mk true (ws.map .literal) false).search l = true ↔ ws <+: l := by
  have hm : ∀ v, Re.Matches (.seq (ws.map .literal)) v ↔ v = ws := fun v => by
    have : Re.Matches (.seq (ws.map .literal ++ [])) v ↔ _ := Re.matches_seq_literals
    rw [List.append_nil] at this
    rw [this]
    constructor
    · rintro ⟨u, rfl, hu⟩
      rw [Re.matches_empty_iff.mp hu, List.append_nil]
    · rintro rfl
      exact ⟨[], (List.append_nil _).symm, Re.Matches.empty⟩
  rw [Bre.search_iff]
  constructor
  · rintro ⟨u, v, w, rfl, hv, hu, _⟩
    rw [hu rfl, (hm v).mp hv]
    exact ⟨w, rfl⟩
  · rintro ⟨w, rfl⟩
    exact ⟨[], ws, w, rfl, (hm ws).mpr rfl, fun _ => rfl, fun e => absurd e Bool.false_ne_true⟩

/-! ## A word between blanks -/

/-- `[[:space:]]`. -/
def spaceClass : Text := ['[', '[', ':', 's', 'p', 'a', 'c', 'e', ':', ']', ']']

theorem atom_spaceClass (rest : Text) : atom (spaceClass ++ rest) = some (.chr posixSpace, rest) := by
  have hname : posixClass ['s', 'p', 'a', 'c', 'e'] = some posixSpace := rfl
  have hitems : ∀ n, bracketItems (n + 2)
      ('[' :: ':' :: 's' :: 'p' :: 'a' :: 'c' :: 'e' :: ':' :: ']' :: ']' :: rest) =
      some (fun c => posixSpace c || false, rest) := fun n => by
    simp [bracketItems, hname]
  simp [spaceClass, atom, bracket, hitems]

theorem parseBre_spaced {ws : Text} (h : ∀ c ∈ ws, Plain c ∨ c = '.') :
    parseBre (spaceClass ++ (escapeDots ws ++ spaceClass)) =
      some ⟨false, .chr posixSpace :: (ws.map .literal ++ [.chr posixSpace]), false⟩ := by
  have hlast : ∀ n, items (n + 1) spaceClass = some ([.chr posixSpace], false) := fun n => by
    have := items_atom (n := n) (by decide) (by decide) (atom_spaceClass []) (by simp)
    rw [List.append_nil] at this
    rw [this]
    cases n <;> rfl
  have hlen : ∃ k, (spaceClass ++ (escapeDots ws ++ spaceClass)).length = ws.length + (k + 1) + 1 := by
    have hle := length_le_escapeDots ws
    refine ⟨9 + (escapeDots ws).length - ws.length + 11, ?_⟩
    simp only [List.length_append, spaceClass, List.length_cons, List.length_nil]
    omega
  obtain ⟨k, hk⟩ := hlen
  have hne : spaceClass ++ (escapeDots ws ++ spaceClass) ≠ [] := by simp [spaceClass]
  have hd : spaceClass ++ (escapeDots ws ++ spaceClass) ≠ ['$'] := by simp [spaceClass]
  have hread := items_atom (n := ws.length + (k + 1)) hne hd (atom_spaceClass _)
    (head?_escapeDots_append h (by decide))
  rw [items_escapeDots h (by decide), hlast] at hread
  rw [parseBre_of_head? (by simp [spaceClass]), hk, hread]
  rfl

/-- A word between two blanks is selected. -/
theorem search_spaced_iff {ws l : Text} :
    (Bre.mk false (.chr posixSpace :: (ws.map .literal ++ [.chr posixSpace])) false).search l = true ↔
      ∃ u c d w, l = u ++ c :: (ws ++ d :: w) ∧ posixSpace c = true ∧ posixSpace d = true := by
  have hm : ∀ v, Re.Matches (.seq (.chr posixSpace :: (ws.map .literal ++ [.chr posixSpace]))) v ↔
      ∃ c d, v = c :: (ws ++ [d]) ∧ posixSpace c = true ∧ posixSpace d = true := fun v => by
    change Re.Matches (.cat (.chr posixSpace) (.seq (ws.map .literal ++ [.chr posixSpace]))) v ↔ _
    simp only [Re.matches_cat_iff, Re.matches_seq_literals, Re.matches_chr_iff]
    constructor
    · rintro ⟨_, _, rfl, ⟨c, rfl, hc⟩, u, rfl, hu⟩
      obtain ⟨x, y, rfl, hx, hy⟩ := Re.matches_cat_iff.mp hu
      obtain ⟨d, rfl, hd⟩ := Re.matches_chr_iff.mp hx
      rw [Re.matches_empty_iff.mp hy]
      exact ⟨c, d, rfl, hc, hd⟩
    · rintro ⟨c, d, rfl, hc, hd⟩
      exact ⟨[c], ws ++ [d], rfl, ⟨c, rfl, hc⟩, [d], rfl,
        Re.Matches.cat (Re.Matches.chr hd) Re.Matches.empty⟩
  rw [Bre.search_iff]
  constructor
  · rintro ⟨u, v, w, rfl, hv, _, _⟩
    obtain ⟨c, d, rfl, hc, hd⟩ := (hm v).mp hv
    exact ⟨u, c, d, w, by simp, hc, hd⟩
  · rintro ⟨u, c, d, w, rfl, hc, hd⟩
    exact ⟨u, c :: (ws ++ [d]), w, by simp, (hm _).mpr ⟨c, d, rfl, hc, hd⟩,
      fun e => absurd e Bool.false_ne_true, fun e => absurd e Bool.false_ne_true⟩

end LabInABox.Text
