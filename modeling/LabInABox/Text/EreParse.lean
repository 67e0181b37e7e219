import LabInABox.Text.Ere

/-!
# Reading extended regular expressions, as `sed -E` and `re` do

`parse` reads an expression of one of two dialects, left to right, with the groups it is inside:

* `posix`: groups, alternations, intervals and stacked repetitions, a `)` that closes nothing as
  itself; a repetition of nothing, an anchor repeated and a `{` that begins no interval are refused.
* `python`: `\s`, a `{` that begins no interval as itself, a `?` after a repetition; a repetition
  repeated and a `)` that closes nothing are refused.
* What neither reading needs is left out and reads as `none`: the escapes of letters but `\s`, the
  sets and the `(?` notations of `re`, and the brackets that `bracket` does not read.

Results:
* `run_cons_cases`: what the reading of one item adds, or opens, or closes.
* `run_quote`: a quoted text is read as itself.
* `rejects_run`: what `sed` reads matches no repetition, no `(` and no anchor, without a bracket.
* `not_mem_of_run`: `re` refuses a `)` that closes nothing.
-/

namespace LabInABox.Text

namespace Ere

/-! ## Reading an expression -/

/-- The readers of expressions. -/
inductive Dialect
  /-- `sed -E` -/
  | posix
  /-- `re` -/
  | python
  deriving DecidableEq

/-- The characters with a meaning of their own outside brackets. -/
def special : Text := "\\.[()*+?\x7b|^$".toList

/-- The bounds of an interval after its `{`, and what follows it. -/
def bounds (t : Text) : Option ((Nat × Option Nat) × Text) :=
  let number (ds : Text) : Nat := ds.foldl (fun n c => 10 * n + (c.toNat - '0'.toNat)) 0
  let lo := t.takeWhile Char.isDigit
  match t.drop lo.length with
  | '}' :: rest => if lo = [] then none else some ((number lo, some (number lo)), rest)
  | ',' :: cs =>
    let hi := cs.takeWhile Char.isDigit
    match cs.drop hi.length with
    | '}' :: rest => some ((number lo, if hi = [] then none else some (number hi)), rest)
    | _ => none
  | _ => none

/-- The expression of an unescaped item that is no group, and whether it can be repeated. -/
def atom (d : Dialect) : Text → Option (Ere × Bool × Text)
  | [] => none
  | '^' :: cs => some (bol, false, cs)
  | '$' :: cs => some (eol, false, cs)
  | '.' :: cs => some (any, true, cs)
  | '[' :: cs =>
    match d, bracket cs with
    | .posix, some (.chr p, rest) => some (chr p, true, rest)
    | _, _ => none
  | '\\' :: c :: cs =>
    if c = '\\' ∨ c ∈ special ∨ c = ']' ∨ c = '}' then some (literal c, true, cs)
    else if d = .python ∧ c = 's' then some (chr isSpace, true, cs)
    else none
  | ['\\'] => none
  | c :: cs =>
    if c ∉ special then some (literal c, true, cs)
    -- a brace that begins no interval is itself to `re`
    else if d = .python ∧ c = '\x7b' ∧ bounds cs = none then some (literal c, true, cs)
    else none

/-- `r` at most so many times. -/
def upTo (r : Ere) : Nat → Ere
  | 0 => empty
  | n + 1 => alt empty (cat r (upTo r n))

/-- `r` from `lo` to `hi` times. -/
def repeated (r : Ere) : Nat → Option Nat → Ere
  | 0, none => star r
  | 0, some hi => upTo r hi
  | lo + 1, hi => cat r (repeated r lo (hi.map (· - 1)))

/-- The repetition a text begins with, if it begins with one, and what follows it. -/
def quantifier (d : Dialect) : Text → Option (Option (Nat × Option Nat) × Text)
  | '*' :: cs => some (some (0, none), cs)
  | '+' :: cs => some (some (1, none), cs)
  | '?' :: cs => some (some (0, some 1), cs)
  | '\x7b' :: cs =>
    match d, bounds cs with
    | .posix, none => none
    | .python, none => some (none, '\x7b' :: cs)
    | d, some ((lo, hi), rest) =>
      -- `RE_DUP_MAX`
      if hi.any (· < lo) ∨ d = .posix ∧ 32767 < hi.getD lo then none else some (some (lo, hi), rest)
  | cs => some (none, cs)

/-- An item with the repetitions that follow it. `n` bounds their number. -/
def quantified (d : Dialect) : Nat → Ere → Text → Option (Ere × Text)
  | 0, _, _ => none
  | n + 1, r, t =>
    match quantifier d t with
    | none => none
    | some (none, rest) => some (r, rest)
    | some (some (lo, hi), rest) =>
      match d with
      | .posix => quantified d n (repeated r lo hi) rest
      | .python =>
        -- a `?` changes which match is found first, not whether there is one
        let rest := if rest.head? = some '?' then rest.tail else rest
        match quantifier d rest with
        | some (none, rest) => some (repeated r lo hi, rest)
        | _ => none

/-- A group being read: the alternatives that are complete, and the items of the last one. -/
structure Frame where
  alts : List Ere
  items : List Ere

namespace Frame

/-- A group of which nothing is read. -/
def start : Frame := ⟨[], []⟩

/-- One item more. -/
def add (f : Frame) (r : Ere) : Frame := { f with items := f.items ++ [r] }

/-- The next alternative. -/
def next (f : Frame) : Frame := ⟨f.alts ++ [seq f.items], []⟩

/-- What the group stands for. -/
def whole (f : Frame) : Ere := f.alts.foldr alt (seq f.items)

end Frame

/-- Read an expression into a group, inside others. `n` bounds the number of its items. -/
def run (d : Dialect) : Nat → List Frame → Frame → Text → Option Ere
  | _, [], f, [] => some f.whole
  | _, _ :: _, _, [] => none
  | 0, _, _, _ :: _ => none
  | n + 1, outer, f, '(' :: cs =>
    if d = .python ∧ cs.head? = some '?' then none else run d n (f :: outer) .start cs
  | n + 1, g :: outer, f, ')' :: cs =>
    match quantified d (cs.length + 1) f.whole cs with
    | none => none
    | some (r, rest) => run d n outer (g.add r) rest
  | n + 1, [], f, ')' :: cs =>
    if d = .python then none
    else match quantified d (cs.length + 1) (literal ')') cs with
      | none => none
      | some (r, rest) => run d n [] (f.add r) rest
  | n + 1, outer, f, '|' :: cs => run d n outer f.next cs
  | n + 1, outer, f, t =>
    match atom d t with
    | none => none
    | some (r, false, rest) => run d n outer (f.add r) rest
    | some (r, true, rest) =>
      match quantified d (rest.length + 1) r rest with
      | none => none
      | some (r, rest) => run d n outer (f.add r) rest

/-- Read an expression. -/
def parse (d : Dialect) (t : Text) : Option Ere := run d t.length [] .start t

/-! ## What the reading of one item adds -/

section Reading

variable {d : Dialect} {n : Nat} {outer : List Frame} {f : Frame} {r : Ere} {t rest : Text}

/-- No repetition begins the text. -/
def NotRepeated (t : Text) : Prop := ∀ c, t.head? = some c → c ∉ "*+?\x7b".toList

instance (t : Text) : Decidable (NotRepeated t) :=
  decidable_of_iff (t.head?.all fun c => c ∉ "*+?\x7b".toList) (by
    unfold NotRepeated
    cases t.head? <;> simp)

theorem quantifier_of_notRepeated (h : NotRepeated t) : quantifier d t = some (none, t) := by
  cases t with
  | nil => rfl
  | cons c cs =>
    have hc : ∀ x ∈ "*+?\x7b".toList, c ≠ x := fun x hx e => h c rfl (e ▸ hx)
    rw [quantifier]
    · exact fun _ e => hc '*' (by decide) (List.cons.inj e).1
    · exact fun _ e => hc '+' (by decide) (List.cons.inj e).1
    · exact fun _ e => hc '?' (by decide) (List.cons.inj e).1
    · exact fun _ e => hc '\x7b' (by decide) (List.cons.inj e).1

theorem quantified_of_notRepeated (h : NotRepeated t) :
    quantified d (n + 1) r t = some (r, t) := by
  rw [quantified, quantifier_of_notRepeated h]

/-- A character that is no anchor, dot, bracket or backslash. -/
theorem atom_other {c : Char} (h : c ∉ "^$.[\\".toList) :
    atom d (c :: t) =
      if c ∉ special then some (literal c, true, t)
      else if d = .python ∧ c = '\x7b' ∧ bounds t = none then some (literal c, true, t)
      else none := by
  have hc : ∀ x ∈ "^$.[\\".toList, c ≠ x := fun x hx e => h (e ▸ hx)
  rw [atom]
  · exact hc '^' (by decide)
  · exact hc '$' (by decide)
  · exact hc '.' (by decide)
  · exact hc '[' (by decide)
  · exact fun _ _ e => absurd e (hc '\\' (by decide))
  · exact fun e => absurd e (hc '\\' (by decide))

/-- A character without a meaning of its own is itself. -/
theorem atom_literal {c : Char} (h : c ∉ special) : atom d (c :: t) = some (literal c, true, t) := by
  have hsub : ∀ x ∈ "^$.[\\".toList, x ∈ special := by decide
  rw [atom_other fun hc => h (hsub c hc), if_pos h]

theorem atom_escaped {c : Char} (h : c = '\\' ∨ c = '.') :
    atom d ('\\' :: c :: t) = some (literal c, true, t) := by
  have hc : c = '\\' ∨ c ∈ special ∨ c = ']' ∨ c = '}' := by
    rcases h with rfl | rfl
    · exact Or.inl rfl
    · exact Or.inr (Or.inl (by decide))
  rw [atom, if_pos hc]

/-- A group, its end and an alternation are no items. -/
theorem atom_of_mem {c : Char} (h : c ∈ "()|".toList) : atom d (c :: t) = none := by
  have hspecial : ∀ x ∈ "()|".toList, x ∈ special ∧ x ∉ "^$.[\\".toList ∧ x ≠ '\x7b' := by decide
  obtain ⟨h₁, h₂, h₃⟩ := hspecial c h
  rw [atom_other h₂, if_neg (not_not.mpr h₁), if_neg fun e => h₃ e.2.1]

/-- An item that is no group is read by `atom`. -/
theorem run_eq_atom {q : Bool} (h : atom d t = some (r, q, rest)) :
    run d (n + 1) outer f t =
      if q = false then run d n outer (f.add r) rest
      else (quantified d (rest.length + 1) r rest).bind fun p => run d n outer (f.add p.1) p.2 := by
  have hne : t ≠ [] := by
    rintro rfl
    exact absurd h (by simp [atom])
  have hno : ∀ c ∈ "()|".toList, ∀ cs, t ≠ c :: cs := by
    rintro c hc cs rfl
    rw [atom_of_mem hc] at h
    exact absurd h (Option.some_ne_none _).symm
  have hopen := hno '(' (by decide)
  have hclose := hno ')' (by decide)
  have hbar := hno '|' (by decide)
  rw [run, h]
  · cases q with
    | false => rfl
    | true =>
      simp only [Bool.true_eq_false, if_false]
      cases quantified d (rest.length + 1) r rest <;> rfl
  all_goals simp_all

/-- An anchor. -/
theorem run_anchor (h : atom d t = some (r, false, rest)) :
    run d (n + 1) outer f t = run d n outer (f.add r) rest := by
  rw [run_eq_atom h, if_pos rfl]

/-- An item without a repetition. -/
theorem run_atom (h : atom d t = some (r, true, rest)) (hrest : NotRepeated rest) :
    run d (n + 1) outer f t = run d n outer (f.add r) rest := by
  rw [run_eq_atom h, if_neg (by decide), quantified_of_notRepeated hrest]
  rfl

/-- An item with one repetition. -/
theorem run_repeated {t' : Text} {lo : Nat} {hi : Option Nat} (h : atom d t = some (r, true, t'))
    (hq : quantifier d t' = some (some (lo, hi), rest)) (hrest : NotRepeated rest) :
    run d (n + 1) outer f t = run d n outer (f.add (repeated r lo hi)) rest := by
  have hquantified : quantified d (t'.length + 1) r t' = some (repeated r lo hi, rest) := by
    cases t' with
    | nil => exact absurd hq (by simp [quantifier])
    | cons c cs =>
      rw [quantified, hq]
      cases d with
      | posix => exact quantified_of_notRepeated hrest
      | python =>
        have hlazy : rest.head? ≠ some '?' := fun e => hrest _ e (by decide)
        simp only [if_neg hlazy, quantifier_of_notRepeated hrest]
  rw [run_eq_atom h, if_neg (by decide), hquantified]
  rfl

/-- Read a text as itself: a backslash before each backslash and each dot. -/
def quote (t : Text) : Text := t.flatMap fun c => if c = '\\' ∨ c = '.' then ['\\', c] else [c]

theorem quote_cons (c : Char) (cs : Text) :
    quote (c :: cs) = (if c = '\\' ∨ c = '.' then ['\\', c] else [c]) ++ quote cs :=
  List.flatMap_cons

theorem length_le_quote (t : Text) : t.length ≤ (quote t).length := by
  induction t with
  | nil => exact Nat.le_refl 0
  | cons c cs ih =>
    rw [quote_cons, List.length_append, List.length_cons]
    split <;> simp <;> omega

/-- A character that `quote` makes itself. -/
def Quotable (c : Char) : Prop := c ∉ special ∨ c = '\\' ∨ c = '.'

instance (c : Char) : Decidable (Quotable c) := inferInstanceAs (Decidable (_ ∨ _ ∨ _))

theorem notRepeated_quote_append {w : Text} (hw : ∀ c ∈ w, Quotable c) (h : NotRepeated rest) :
    NotRepeated (quote w ++ rest) := by
  cases w with
  | nil => exact h
  | cons c cs =>
    intro x hx hm
    rw [quote_cons] at hx
    split at hx
    · rw [← Option.some.inj hx] at hm
      exact absurd hm (by decide)
    · rename_i hc
      obtain rfl : c = x := Option.some.inj hx
      have hspecial : ∀ x ∈ "*+?\x7b".toList, x ∈ special := by decide
      exact (hw c List.mem_cons_self).resolve_right hc (hspecial c hm)

/-- **A quoted text** is read as itself. -/
theorem run_quote {w : Text} (hw : ∀ c ∈ w, Quotable c) (h : NotRepeated rest) :
    run d (w.length + n) outer f (quote w ++ rest) =
      run d n outer { f with items := f.items ++ w.map literal } rest := by
  induction w generalizing f with
  | nil => simp [quote]
  | cons c cs ih =>
    have htl : ∀ x ∈ cs, Quotable x := fun x hx => hw x (List.mem_cons_of_mem _ hx)
    have hnext := notRepeated_quote_append htl h
    have hatom : atom d (quote (c :: cs) ++ rest) = some (literal c, true, quote cs ++ rest) := by
      rw [quote_cons]
      split
      · rename_i hc
        exact atom_escaped hc
      · rename_i hc
        exact atom_literal ((hw c List.mem_cons_self).resolve_right hc)
    have hlen : (c :: cs).length + n = cs.length + n + 1 := by rw [List.length_cons]; omega
    rw [hlen, run_atom hatom hnext, ih htl, Frame.add, List.append_assoc]
    rfl

end Reading

/-! ## Expressions whose only class is the blank -/

/-- The expression of a blank. -/
def blank : Dialect → Text
  | .posix => spaceClass
  | .python => ['\\', 's']

/-- The blanks it stands for. -/
def isBlank : Dialect → Char → Bool
  | .posix => posixSpace
  | .python => isSpace

/-- An expression without brackets but blanks, whose backslashes quote. -/
inductive Simple (d : Dialect) : Text → Prop
  | nil : Simple d []
  | blank {t : Text} (h : Simple d t) : Simple d (blank d ++ t)
  | escaped {c : Char} {t : Text} (hc : c = '\\' ∨ c = '.') (h : Simple d t) :
      Simple d ('\\' :: c :: t)
  | other {c : Char} {t : Text} (hc : c ∉ "\\.[".toList) (h : Simple d t) : Simple d (c :: t)

section Blanks

variable {d : Dialect} {n : Nat} {outer : List Frame} {f : Frame} {r : Ere} {t rest : Text}

theorem atom_blank : atom d (blank d ++ t) = some (chr (isBlank d), true, t) := by
  cases d with
  | posix =>
    have hb : bracket ((spaceClass ++ t).tail) = some (.chr posixSpace, t) := atom_spaceClass t
    change atom .posix ('[' :: (spaceClass ++ t).tail) = _
    simp only [atom, hb]
    rfl
  | python =>
    have hs : ¬ ('s' = '\\' ∨ 's' ∈ special ∨ 's' = ']' ∨ 's' = '}') := by decide
    change atom .python ('\\' :: 's' :: t) = _
    rw [atom, if_neg hs, if_pos ⟨rfl, rfl⟩]
    rfl

/-- What may stand before the rest of a simple expression without hiding it. -/
theorem Simple.of_append {u : Text} (hu : ∀ c ∈ u, c ≠ '\\' ∧ c ≠ '[') (h : Simple d (u ++ t)) :
    Simple d t := by
  induction u with
  | nil => exact h
  | cons c cs ih =>
    refine ih (fun x hx => hu x (List.mem_cons_of_mem _ hx)) ?_
    obtain ⟨h₁, h₂⟩ := hu c List.mem_cons_self
    rw [List.cons_append] at h
    generalize hx : c :: (cs ++ t) = x at h
    cases h with
    | nil => exact absurd hx (List.cons_ne_nil _ _)
    | blank h =>
      cases d with
      | posix => exact absurd (List.cons.inj hx).1 h₂
      | python => exact absurd (List.cons.inj hx).1 h₁
    | escaped _ h => exact absurd (List.cons.inj hx).1 h₁
    | other _ h => exact (List.cons.inj hx).2 ▸ h

theorem Simple.append {u : Text} (hu : Simple d u) (ht : Simple d t) : Simple d (u ++ t) := by
  induction hu with
  | nil => exact ht
  | blank _ ih =>
    rw [List.append_assoc]
    exact .blank ih
  | escaped hc _ ih => exact .escaped hc ih
  | other hc _ ih => exact .other hc ih

theorem simple_quote {w : Text} (h : '[' ∉ w) : Simple d (quote w) := by
  induction w with
  | nil => exact .nil
  | cons c cs ih =>
    obtain ⟨hc, hcs⟩ := not_or.mp fun hm => h (List.mem_cons.mpr hm)
    rw [quote_cons]
    split
    · rename_i hq
      exact .escaped hq (ih hcs)
    · rename_i hq
      refine .other (fun hm => ?_) (ih hcs)
      rcases List.mem_cons.mp hm with e | hm
      · exact hq (Or.inl e)
      · rcases List.mem_cons.mp hm with e | hm
        · exact hq (Or.inr e)
        · exact hc (List.mem_singleton.mp hm).symm

/-- **The items of a simple expression.** -/
theorem Simple.atom_cases {q : Bool} (h : Simple d t) (ha : atom d t = some (r, q, rest)) :
    Simple d rest ∧
      ((t = Ere.blank d ++ rest ∧ r = chr (isBlank d)) ∨
        (∃ c, (c = '\\' ∨ c = '.') ∧ t = '\\' :: c :: rest ∧ r = literal c) ∨
        ∃ c, c ≠ ')' ∧ t = c :: rest ∧
          (r = bol ∨ r = eol ∨ r = literal c ∧ (c ∉ special ∨ d = .python))) := by
  cases h with
  | nil => exact absurd ha (by simp [atom])
  | blank h =>
    rw [atom_blank] at ha
    obtain ⟨rfl, -, rfl⟩ := by simpa using ha
    exact ⟨h, Or.inl ⟨rfl, rfl⟩⟩
  | escaped hc h =>
    rw [atom_escaped hc] at ha
    obtain ⟨rfl, -, rfl⟩ := by simpa using ha
    exact ⟨h, Or.inr (Or.inl ⟨_, hc, rfl, rfl⟩)⟩
  | @other c t hc h =>
    by_cases hbol : c = '^'
    · subst hbol
      obtain ⟨rfl, -, rfl⟩ := by simpa [atom] using ha
      exact ⟨h, Or.inr (Or.inr ⟨'^', by decide, rfl, Or.inl rfl⟩)⟩
    by_cases heol : c = '$'
    · subst heol
      obtain ⟨rfl, -, rfl⟩ := by simpa [atom] using ha
      exact ⟨h, Or.inr (Or.inr ⟨'$', by decide, rfl, Or.inr (Or.inl rfl)⟩)⟩
    have hclose : c ≠ ')' := by
      rintro rfl
      rw [atom_of_mem (by decide)] at ha
      exact absurd ha (Option.some_ne_none _).symm
    have hother : c ∉ "^$.[\\".toList := by
      intro hm
      have hsub : ∀ x ∈ "^$.[\\".toList, x = '^' ∨ x = '$' ∨ x ∈ "\\.[".toList := by decide
      rcases hsub c hm with e | e | e
      · exact hbol e
      · exact heol e
      · exact hc e
    rw [atom_other hother] at ha
    split at ha
    · rename_i hs
      obtain ⟨rfl, -, rfl⟩ := by simpa using ha
      exact ⟨h, Or.inr (Or.inr ⟨c, hclose, rfl, Or.inr (Or.inr ⟨rfl, Or.inl hs⟩)⟩)⟩
    · split at ha
      · rename_i hp
        obtain ⟨rfl, -, rfl⟩ := by simpa using ha
        exact ⟨h, Or.inr (Or.inr ⟨c, hclose, rfl, Or.inr (Or.inr ⟨rfl, Or.inr hp.1⟩)⟩)⟩
      · exact absurd ha (Option.some_ne_none _).symm

/-- What reading a part of a simple expression leaves: the end of it, with every character of `ks`. -/
structure Leaves (ks : Text) (d : Dialect) (t rest : Text) : Prop where
  simple : Simple d rest
  suffix : rest <:+ t
  keeps : ∀ k ∈ ks, k ∈ t → k ∈ rest

variable {ks : Text}

theorem Leaves.refl (h : Simple d t) : Leaves ks d t t := ⟨h, List.suffix_refl t, fun _ _ => id⟩

theorem Leaves.trans {t' : Text} (h : Leaves ks d t t') (h' : Leaves ks d t' rest) :
    Leaves ks d t rest :=
  ⟨h'.simple, h'.suffix.trans h.suffix, fun k hk hm => h'.keeps k hk (h.keeps k hk hm)⟩

theorem Leaves.mono {ks' : Text} (h : Leaves ks d t rest) (hks : ks' ⊆ ks) : Leaves ks' d t rest :=
  ⟨h.simple, h.suffix, fun k hk => h.keeps k (hks hk)⟩

theorem Leaves.of_append {u : Text} (hu : ∀ c ∈ u, c ≠ '\\' ∧ c ≠ '[' ∧ c ∉ ks)
    (h : Simple d (u ++ t)) : Leaves ks d (u ++ t) t :=
  ⟨h.of_append fun c hc => ⟨(hu c hc).1, (hu c hc).2.1⟩, List.suffix_append u t, fun k hk hm =>
    (List.mem_append.mp hm).resolve_left fun hc => (hu k hc).2.2 hk⟩

/-- An item hides no `)` and no `$` but the `$` it is. -/
theorem leaves_atom {q : Bool} (h : Simple d t) (ha : atom d t = some (r, q, rest))
    (hks : ks ⊆ ")$".toList) (hhead : '$' ∈ ks → t.head? ≠ some '$') : Leaves ks d t rest := by
  obtain ⟨hrest, ⟨rfl, -⟩ | ⟨c, hc, rfl, -⟩ | ⟨c, hc, rfl, -⟩⟩ := h.atom_cases ha
  · refine ⟨hrest, List.suffix_append _ _, fun k hk hm => (List.mem_append.mp hm).resolve_left ?_⟩
    have hall : ∀ x ∈ ")$".toList, x ∉ blank d := by cases d <;> decide
    exact hall k (hks hk)
  · refine ⟨hrest, ⟨['\\', c], rfl⟩, fun k hk hm => ?_⟩
    have hall : ∀ x ∈ ")$".toList, x ≠ '\\' ∧ x ≠ '.' := by decide
    obtain ⟨hback, hdot⟩ := hall k (hks hk)
    rcases List.mem_cons.mp hm with e | hm
    · exact absurd e hback
    · rcases List.mem_cons.mp hm with rfl | hm
      · exact absurd hc (not_or.mpr ⟨hback, hdot⟩)
      · exact hm
  · refine ⟨hrest, ⟨[c], rfl⟩, fun k hk hm => (List.mem_cons.mp hm).resolve_left ?_⟩
    rintro rfl
    rcases List.mem_cons.mp (hks hk) with e | e
    · exact hc e
    · rw [List.mem_singleton.mp e] at hk hhead
      exact hhead hk rfl

theorem exists_bounds {b : Nat × Option Nat} (h : bounds t = some (b, rest)) :
    ∃ u, t = u ++ rest ∧ ∀ c ∈ u, c ≠ '\\' ∧ c ≠ '[' ∧ c ∉ ")$".toList := by
  have hdigits : ∀ (w : Text), ∀ c ∈ w.takeWhile Char.isDigit,
      c ≠ '\\' ∧ c ≠ '[' ∧ c ∉ ")$".toList := by
    intro w c hc
    have hd := List.mem_takeWhile_imp hc
    have hno : ∀ x ∈ "\\[)$".toList, c ≠ x := by
      rintro x hx rfl
      have hall : ∀ y ∈ "\\[)$".toList, y.isDigit = false := by decide
      rw [hall _ hx] at hd
      exact absurd hd Bool.false_ne_true
    refine ⟨hno _ (by decide), hno _ (by decide), fun hm => ?_⟩
    rcases List.mem_cons.mp hm with e | hm
    · exact hno _ (by decide) e
    · exact hno _ (by decide) (List.mem_singleton.mp hm)
  have hcut : ∀ w : Text, w = w.takeWhile Char.isDigit ++ w.drop (w.takeWhile Char.isDigit).length :=
    fun w => by
      have hpre := List.takeWhile_prefix (l := w) Char.isDigit
      rw [List.prefix_iff_eq_append.mp hpre]
  rw [bounds] at h
  dsimp only at h
  split at h
  · rename_i rest' hdrop
    split at h
    · exact absurd h (Option.some_ne_none _).symm
    · obtain ⟨-, rfl⟩ := by simpa using h
      refine ⟨t.takeWhile Char.isDigit ++ ['}'], ?_, fun c hc => ?_⟩
      · rw [List.append_assoc, List.singleton_append, ← hdrop]
        exact hcut t
      · rcases List.mem_append.mp hc with hc | hc
        · exact hdigits t c hc
        · rw [List.mem_singleton.mp hc]
          decide
  · rename_i cs hdrop
    split at h
    · rename_i rest' hdrop'
      obtain ⟨-, rfl⟩ := by simpa using h
      refine ⟨t.takeWhile Char.isDigit ++ ',' :: (cs.takeWhile Char.isDigit ++ ['}']), ?_, fun c hc => ?_⟩
      · rw [List.append_assoc, List.cons_append, List.append_assoc, List.singleton_append, ← hdrop',
          ← hcut cs, ← hdrop]
        exact hcut t
      · rcases List.mem_append.mp hc with hc | hc
        · exact hdigits t c hc
        · rcases List.mem_cons.mp hc with rfl | hc
          · decide
          · rcases List.mem_append.mp hc with hc | hc
            · exact hdigits cs c hc
            · rw [List.mem_singleton.mp hc]
              decide
    · exact absurd h (Option.some_ne_none _).symm
  · exact absurd h (Option.some_ne_none _).symm

theorem leaves_quantifier {q : Option (Nat × Option Nat)} (h : Simple d t)
    (hq : quantifier d t = some (q, rest)) : Leaves ")$".toList d t rest := by
  have hone : ∀ c cs, t = c :: cs → c ∈ "*+?".toList → Leaves ")$".toList d t cs := by
    rintro c cs rfl hc
    have hall : ∀ x ∈ "*+?".toList, x ≠ '\\' ∧ x ≠ '[' ∧ x ∉ ")$".toList := by decide
    exact Leaves.of_append (u := [c]) (fun x hx => List.mem_singleton.mp hx ▸ hall c hc) h
  rw [quantifier.eq_def] at hq
  split at hq
  · obtain ⟨-, rfl⟩ := by simpa using hq
    exact hone '*' _ rfl (by decide)
  · obtain ⟨-, rfl⟩ := by simpa using hq
    exact hone '+' _ rfl (by decide)
  · obtain ⟨-, rfl⟩ := by simpa using hq
    exact hone '?' _ rfl (by decide)
  · rename_i cs
    split at hq
    · exact absurd hq (Option.some_ne_none _).symm
    · obtain ⟨-, rfl⟩ := by simpa using hq
      exact Leaves.refl h
    · rename_i lo hi rest' hb
      split at hq
      · exact absurd hq (Option.some_ne_none _).symm
      · obtain ⟨-, rfl⟩ := by simpa using hq
        obtain ⟨u, rfl, hu⟩ := exists_bounds hb
        refine Leaves.of_append (u := '\x7b' :: u) (fun c hc => ?_) h
        rcases List.mem_cons.mp hc with rfl | hc
        · decide
        · exact hu c hc
  · obtain ⟨-, rfl⟩ := by simpa using hq
    exact Leaves.refl h

theorem leaves_quantified {r' : Ere} (h : Simple d t)
    (hq : quantified d n r t = some (r', rest)) : Leaves ")$".toList d t rest := by
  induction n generalizing r t with
  | zero => exact absurd hq (by simp [quantified])
  | succ n ih =>
    rw [quantified] at hq
    split at hq
    · exact absurd hq (Option.some_ne_none _).symm
    · rename_i rest' hq'
      obtain ⟨-, rfl⟩ := by simpa using hq
      exact leaves_quantifier h hq'
    · rename_i lo hi rest' hq'
      have hfirst := leaves_quantifier h hq'
      split at hq
      · exact hfirst.trans (ih hfirst.simple hq)
      · dsimp only at hq
        split at hq
        · rename_i rest'' hq''
          obtain ⟨-, rfl⟩ := by simpa using hq
          split at hq''
          · rename_i hlazy
            cases rest' with
            | nil => exact absurd hlazy (by simp)
            | cons c cs =>
              obtain rfl : c = '?' := Option.some.inj hlazy
              have hskip : Leaves ")$".toList .python ('?' :: cs) cs := Leaves.of_append (u := ['?'])
                (fun x hx => List.mem_singleton.mp hx ▸ by decide) hfirst.simple
              exact hfirst.trans (hskip.trans (leaves_quantifier hskip.simple hq''))
          · exact hfirst.trans (leaves_quantifier hfirst.simple hq'')
        · exact absurd hq (Option.some_ne_none _).symm

/-! ### What `sed` never matches -/

theorem rejects_repeated {c : Char} (h : r.Rejects c) (lo : Nat) (hi : Option Nat) :
    (repeated r lo hi).Rejects c := by
  have hupTo : ∀ n, (upTo r n).Rejects c := fun n => by
    induction n with
    | zero => trivial
    | succ n ih => exact ⟨trivial, h, ih⟩
  fun_induction repeated r lo hi with
  | case1 => exact h
  | case2 hi => exact hupTo hi
  | case3 lo hi ih => exact ⟨h, ih⟩

theorem rejects_quantified {c : Char} {r' : Ere} (h : r.Rejects c)
    (hq : quantified d n r t = some (r', rest)) : r'.Rejects c := by
  induction n generalizing r t with
  | zero => exact absurd hq (by simp [quantified])
  | succ n ih =>
    rw [quantified] at hq
    split at hq
    · exact absurd hq (Option.some_ne_none _).symm
    · obtain ⟨rfl, -⟩ := by simpa using hq
      exact h
    · split at hq
      · exact ih (rejects_repeated h _ _) hq
      · dsimp only at hq
        split at hq
        · obtain ⟨rfl, -⟩ := by simpa using hq
          exact rejects_repeated h _ _
        · exact absurd hq (Option.some_ne_none _).symm

theorem rejects_atom {c : Char} {q : Bool} (hc : c ∈ "*+?(\x7b^$".toList) (h : Simple .posix t)
    (ha : atom .posix t = some (r, q, rest)) : r.Rejects c := by
  have hall : ∀ x ∈ "*+?(\x7b^$".toList, posixSpace x = false ∧ x ≠ '\\' ∧ x ≠ '.' ∧ x ∈ special := by
    decide
  obtain ⟨hspace, hback, hdot, hspecial⟩ := hall c hc
  have hliteral : ∀ x, x ≠ c → (literal x).Rejects c := fun x hx => by
    change (c == x) = false
    simpa using hx.symm
  obtain ⟨-, ⟨-, rfl⟩ | ⟨x, hx, -, rfl⟩ | ⟨x, -, -, hr⟩⟩ := h.atom_cases ha
  · exact hspace
  · rcases hx with rfl | rfl
    · exact hliteral _ hback.symm
    · exact hliteral _ hdot.symm
  · rcases hr with rfl | rfl | ⟨rfl, hx⟩
    · trivial
    · trivial
    · refine hliteral x ?_
      rintro rfl
      rcases hx with hx | hx
      · exact hx hspecial
      · exact absurd hx (by decide)

/-- What is read of a group rejects a character. -/
def Frame.Rejects (c : Char) (f : Frame) : Prop :=
  (∀ r ∈ f.alts, r.Rejects c) ∧ ∀ r ∈ f.items, r.Rejects c

theorem Frame.rejects_start {c : Char} : Frame.start.Rejects c :=
  ⟨fun _ hr => absurd hr List.not_mem_nil, fun _ hr => absurd hr List.not_mem_nil⟩

theorem Frame.Rejects.add {c : Char} (hf : f.Rejects c) (hr : r.Rejects c) : (f.add r).Rejects c :=
  ⟨hf.1, fun x hx => (List.mem_append.mp hx).elim (hf.2 x) fun hx => List.mem_singleton.mp hx ▸ hr⟩

theorem Frame.Rejects.next {c : Char} (hf : f.Rejects c) : f.next.Rejects c := by
  refine ⟨fun x hx => (List.mem_append.mp hx).elim (hf.1 x) fun hx => ?_,
    fun _ hr => absurd hr List.not_mem_nil⟩
  rw [List.mem_singleton.mp hx]
  exact rejects_seq_iff.mpr hf.2

theorem Frame.Rejects.whole {c : Char} (hf : f.Rejects c) : f.whole.Rejects c := by
  obtain ⟨alts, items⟩ := f
  induction alts with
  | nil => exact rejects_seq_iff.mpr hf.2
  | cons r rs ih =>
    exact ⟨hf.1 r List.mem_cons_self, ih ⟨fun x hx => hf.1 x (List.mem_cons_of_mem _ hx), hf.2⟩⟩

/-- **What reading one item does.** -/
theorem run_cons_cases {c : Char} {cs : Text} (h : run d (n + 1) outer f (c :: cs) = some r) :
    (c = '(' ∧ run d n (f :: outer) .start cs = some r) ∨
      (c = ')' ∧ ∃ g outer' r' rest, outer = g :: outer' ∧
        quantified d (cs.length + 1) f.whole cs = some (r', rest) ∧
        run d n outer' (g.add r') rest = some r) ∨
      (c = ')' ∧ d = .posix ∧ outer = [] ∧ ∃ r' rest,
        quantified d (cs.length + 1) (literal ')') cs = some (r', rest) ∧
        run d n [] (f.add r') rest = some r) ∨
      (c = '|' ∧ run d n outer f.next cs = some r) ∨
      ∃ r' q rest r'' rest', atom d (c :: cs) = some (r', q, rest) ∧
        (r'' = r' ∧ rest' = rest ∨
          q = true ∧ quantified d (rest.length + 1) r' rest = some (r'', rest')) ∧
        run d n outer (f.add r'') rest' = some r := by
  by_cases hopen : c = '('
  · subst hopen
    rw [run] at h
    split at h
    · exact absurd h (Option.some_ne_none _).symm
    · exact Or.inl ⟨rfl, h⟩
  by_cases hclose : c = ')'
  · subst hclose
    cases outer with
    | cons g outer =>
      rw [run] at h
      split at h
      · exact absurd h (Option.some_ne_none _).symm
      · rename_i r' rest hq
        exact Or.inr (Or.inl ⟨rfl, g, outer, r', rest, rfl, hq, h⟩)
    | nil =>
      rw [run] at h
      split at h
      · exact absurd h (Option.some_ne_none _).symm
      · rename_i hd
        split at h
        · exact absurd h (Option.some_ne_none _).symm
        · rename_i r' rest hq
          refine Or.inr (Or.inr (Or.inl ⟨rfl, ?_, rfl, r', rest, hq, h⟩))
          cases d with
          | posix => rfl
          | python => exact absurd rfl hd
  by_cases hbar : c = '|'
  · subst hbar
    rw [run] at h
    exact Or.inr (Or.inr (Or.inr (Or.inl ⟨rfl, h⟩)))
  refine Or.inr (Or.inr (Or.inr (Or.inr ?_)))
  cases ha : atom d (c :: cs) with
  | none =>
    rw [run, ha] at h
    · exact absurd h (Option.some_ne_none _).symm
    all_goals simp_all
  | some p =>
    obtain ⟨r', q, rest⟩ := p
    rw [run_eq_atom ha] at h
    split at h
    · exact ⟨r', q, rest, r', rest, rfl, Or.inl ⟨rfl, rfl⟩, h⟩
    · rename_i hne
      obtain ⟨⟨r'', rest'⟩, hq, hr⟩ := Option.bind_eq_some_iff.mp h
      exact ⟨r', q, rest, r'', rest', rfl, Or.inr ⟨by simpa using hne, hq⟩, hr⟩

/-- Nothing is left to read, or an item is. -/
theorem run_eq_some_nil_or (h : run d n outer f t = some r) :
    (t = [] ∧ outer = [] ∧ r = f.whole) ∨ ∃ m c cs, n = m + 1 ∧ t = c :: cs := by
  cases t with
  | nil =>
    cases outer with
    | nil =>
      cases n <;> exact Or.inl ⟨rfl, rfl, (Option.some.inj h).symm⟩
    | cons g outer => cases n <;> exact absurd h (Option.some_ne_none _).symm
  | cons c cs =>
    cases n with
    | zero => cases outer <;> exact absurd h (Option.some_ne_none _).symm
    | succ m => exact Or.inr ⟨m, c, cs, rfl, rfl⟩

theorem Simple.tail {c : Char} {cs : Text} (h : Simple d (c :: cs)) (hc : c ∈ "()|".toList) :
    Simple d cs := by
  have hall : ∀ x ∈ "()|".toList, x ≠ '\\' ∧ x ≠ '[' := by decide
  exact h.of_append (u := [c]) fun x hx => List.mem_singleton.mp hx ▸ hall c hc

/-- **A simple expression matches no character that repeats, opens a group or anchors.** -/
theorem rejects_run {c : Char} (hc : c ∈ "*+?(\x7b^$".toList) (h : Simple .posix t)
    (houter : ∀ g ∈ outer, g.Rejects c) (hf : f.Rejects c)
    (hrun : run .posix n outer f t = some r) : r.Rejects c := by
  induction n generalizing outer f t with
  | zero =>
    rcases run_eq_some_nil_or hrun with ⟨-, -, rfl⟩ | ⟨m, x, cs, hm, -⟩
    · exact hf.whole
    · exact absurd hm (by omega)
  | succ n ih =>
    rcases run_eq_some_nil_or hrun with ⟨-, -, rfl⟩ | ⟨_, x, cs, -, rfl⟩
    · exact hf.whole
    rcases run_cons_cases hrun with ⟨rfl, hr⟩ | ⟨rfl, g, outer', r', rest, rfl, hq, hr⟩ |
      ⟨rfl, -, -, r', rest, hq, hr⟩ | ⟨rfl, hr⟩ | ⟨r', q, rest, r'', rest', ha, hq, hr⟩
    · exact ih (h.tail (by decide)) (List.forall_mem_cons.mpr ⟨hf, houter⟩) Frame.rejects_start hr
    · obtain ⟨hg, houter'⟩ := List.forall_mem_cons.mp houter
      have hleaves := leaves_quantified (h.tail (by decide)) hq
      exact ih hleaves.simple houter' (hg.add (rejects_quantified hf.whole hq)) hr
    · have hleaves := leaves_quantified (h.tail (by decide)) hq
      have hlit : (literal ')').Rejects c := by
        have hall : ∀ x ∈ "*+?(\x7b^$".toList, (x == ')') = false := by decide
        exact hall c hc
      exact ih hleaves.simple (fun _ hg => absurd hg List.not_mem_nil)
        (hf.add (rejects_quantified hlit hq)) hr
    · exact ih (h.tail (by decide)) houter hf.next hr
    · have hrest := (h.atom_cases ha).1
      have hrej := rejects_atom hc h ha
      rcases hq with ⟨rfl, rfl⟩ | ⟨-, hq⟩
      · exact ih hrest houter (hf.add hrej) hr
      · exact ih (leaves_quantified hrest hq).simple houter (hf.add (rejects_quantified hrej hq)) hr

/-- **`re` refuses a `)` that closes nothing.** -/
theorem not_mem_of_run {t : Text} (h : Simple .python t) (hopen : '(' ∉ t)
    (hrun : run .python n [] f t = some r) : ')' ∉ t := by
  induction n generalizing f t with
  | zero =>
    rcases run_eq_some_nil_or hrun with ⟨rfl, -⟩ | ⟨m, x, cs, hm, -⟩
    · exact List.not_mem_nil
    · exact absurd hm (by omega)
  | succ n ih =>
    rcases run_eq_some_nil_or hrun with ⟨rfl, -⟩ | ⟨_, x, cs, -, rfl⟩
    · exact List.not_mem_nil
    rcases run_cons_cases hrun with ⟨rfl, hr⟩ | ⟨-, g, outer', r', rest, hnil, -⟩ | ⟨-, hd, -⟩ |
      ⟨rfl, hr⟩ | ⟨r', q, rest, r'', rest', ha, hq, hr⟩
    · exact absurd List.mem_cons_self hopen
    · exact absurd hnil.symm (List.cons_ne_nil _ _)
    · exact absurd hd (by decide)
    · intro hm
      have hcs := (List.mem_cons.mp hm).resolve_left (by decide)
      exact ih (h.tail (by decide)) (fun hx => hopen (List.mem_cons_of_mem _ hx)) hr hcs
    · have hleaves : Leaves [')'] .python (x :: cs) rest' := by
        have hfirst : Leaves [')'] .python (x :: cs) rest :=
          leaves_atom h ha (by decide) fun hm => absurd hm (by decide)
        rcases hq with ⟨-, rfl⟩ | ⟨-, hq⟩
        · exact hfirst
        · exact hfirst.trans ((leaves_quantified hfirst.simple hq).mono (by decide))
      exact fun hm => ih hleaves.simple (fun hx => hopen (hleaves.suffix.subset hx)) hr
        (hleaves.keeps _ List.mem_cons_self hm)

/-! ### Anchored at both ends -/

/-- The outermost group has one alternative, which begins with `^`. -/
def Anchored : List Frame → Frame → Prop
  | [], f => f.alts = [] ∧ f.items.head? = some bol
  | g :: outer, _ => Anchored outer g

theorem Anchored.add : ∀ {outer : List Frame} {f : Frame}, Anchored outer f → ∀ r,
    Anchored outer (f.add r)
  | [], f, h, r => ⟨h.1, by rw [Frame.add, List.head?_append, h.2]; rfl⟩
  | _ :: _, _, h, _ => h

theorem exists_seq_of_anchored (hf : Anchored [] f) : ∃ rs, (f.add eol).whole = seq (bol :: (rs ++ [eol])) := by
  obtain ⟨halts, hhead⟩ := hf
  obtain ⟨rs, hrs⟩ : ∃ rs, f.items = bol :: rs := by
    cases hi : f.items with
    | nil => rw [hi] at hhead; exact absurd hhead (Option.some_ne_none _).symm
    | cons x xs =>
      rw [hi] at hhead
      exact ⟨xs, by rw [Option.some.inj hhead]⟩
  refine ⟨rs, ?_⟩
  rw [Frame.whole, Frame.add, halts, hrs]
  rfl

/-- **An expression from `^` to `$`**, without alternatives, matches whole lines only. -/
theorem exists_seq_of_run {t : Text} (h : Simple .posix t) (hbar : '|' ∉ t)
    (hlast : t.getLast? = some '$') (hf : Anchored outer f)
    (hrun : run .posix n outer f t = some r) : ∃ rs, r = seq (bol :: (rs ++ [eol])) := by
  -- what is left ends as the text does, as long as its `$` is not hidden
  have hnext : ∀ {u v : Text}, v <:+ u → u.getLast? = some '$' → '$' ∈ v → v.getLast? = some '$' :=
    fun hsuf hu hv => by
      obtain ⟨w, rfl⟩ := hsuf
      rwa [List.getLast?_append_of_ne_nil _ (List.ne_nil_of_mem hv)] at hu
  induction n generalizing outer f t with
  | zero =>
    rcases run_eq_some_nil_or hrun with ⟨rfl, -⟩ | ⟨m, x, cs, hm, -⟩
    · exact absurd hlast (by simp)
    · exact absurd hm (by omega)
  | succ n ih =>
    rcases run_eq_some_nil_or hrun with ⟨rfl, -⟩ | ⟨_, x, cs, -, rfl⟩
    · exact absurd hlast (by simp)
    have hdollar : x ≠ '$' → '$' ∈ cs := fun hx =>
      (List.mem_cons.mp (List.mem_of_getLast? hlast)).resolve_left (Ne.symm hx)
    have hbars : ∀ v, v <:+ x :: cs → '|' ∉ v := fun v hv hm => hbar (hv.subset hm)
    have hcs : cs <:+ x :: cs := List.suffix_cons x cs
    rcases run_cons_cases hrun with ⟨rfl, hr⟩ | ⟨rfl, g, outer', r', rest, rfl, hq, hr⟩ |
      ⟨rfl, -, rfl, r', rest, hq, hr⟩ | ⟨rfl, -⟩ | ⟨r', q, rest, r'', rest', ha, hq, hr⟩
    · have hf' : Anchored (f :: outer) .start := hf
      exact ih (h.tail (by decide)) (hbars _ hcs) (hnext hcs hlast (hdollar (by decide))) hf' hr
    · have hleaves := leaves_quantified (h.tail (by decide)) hq
      have hsuf := hleaves.suffix.trans hcs
      exact ih hleaves.simple (hbars _ hsuf) (hnext hsuf hlast
        (hleaves.keeps _ (by decide) (hdollar (by decide)))) (Anchored.add (f := g) hf r') hr
    · have hleaves := leaves_quantified (h.tail (by decide)) hq
      have hsuf := hleaves.suffix.trans hcs
      exact ih hleaves.simple (hbars _ hsuf) (hnext hsuf hlast
        (hleaves.keeps _ (by decide) (hdollar (by decide)))) (hf.add r') hr
    · exact absurd List.mem_cons_self hbar
    · by_cases hx : x = '$'
      · subst hx
        have heol : atom .posix ('$' :: cs) = some (eol, false, cs) := by rw [atom]
        obtain ⟨rfl, rfl, rfl⟩ : eol = r' ∧ false = q ∧ cs = rest := by
          simpa using heol.symm.trans ha
        obtain ⟨rfl, rfl⟩ := hq.resolve_right fun e => absurd e.1 Bool.false_ne_true
        rcases run_eq_some_nil_or hr with ⟨rfl, rfl, rfl⟩ | ⟨_, y, ys, -, rfl⟩
        · exact exists_seq_of_anchored hf
        · have hsimple := (h.atom_cases ha).1
          exact ih hsimple (hbars _ hcs) (by rwa [List.getLast?_cons_cons] at hlast) (hf.add eol) hr
      · have hhead : '$' ∈ ")$".toList → (x :: cs).head? ≠ some '$' := fun _ e =>
          hx (Option.some.inj e)
        have hfirst := leaves_atom h ha (List.Subset.refl _) hhead
        have hleaves : Leaves ")$".toList .posix (x :: cs) rest' := by
          rcases hq with ⟨-, rfl⟩ | ⟨-, hq⟩
          · exact hfirst
          · exact hfirst.trans (leaves_quantified hfirst.simple hq)
        exact ih hleaves.simple (hbars _ hleaves.suffix) (hnext hleaves.suffix hlast
          (hleaves.keeps _ (by decide) (List.mem_of_getLast? hlast))) (hf.add r'') hr

theorem exists_seq_of_parse {t : Text} (h : Simple .posix ('^' :: t)) (hbar : '|' ∉ t)
    (hlast : t.getLast? = some '$') (hp : parse .posix ('^' :: t) = some r) :
    ∃ rs, r = seq (bol :: (rs ++ [eol])) := by
  have hbol : atom .posix ('^' :: t) = some (bol, false, t) := by rw [atom]
  rw [parse, List.length_cons, run_anchor hbol] at hp
  have hf : Anchored [] (Frame.start.add bol) := ⟨rfl, rfl⟩
  exact exists_seq_of_run (h.atom_cases hbol).1 hbar hlast hf hp

end Blanks

/-! ## Reading the fields of a line -/

section Lines

variable {d : Dialect} {n : Nat} {outer : List Frame} {f : Frame} {t g : Text} {fs : List Text}

theorem run_nil : run d n [] f [] = some f.whole := by cases n <;> rfl

/-- Blanks that may be missing. -/
theorem run_star_blank (h : NotRepeated t) :
    run d (n + 1) outer f (blank d ++ '*' :: t) =
      run d n outer (f.add (star (chr (isBlank d)))) t := by
  have hq : quantifier d ('*' :: t) = some (some (0, none), t) := by rw [quantifier]
  rw [run_repeated atom_blank hq h, repeated]

/-- One blank or more. -/
theorem run_blanks (h : NotRepeated t) :
    run d (n + 1) outer f (blank d ++ '+' :: t) =
      run d n outer (f.add (blanks (isBlank d))) t := by
  have hq : quantifier d ('+' :: t) = some (some (1, none), t) := by rw [quantifier]
  rw [run_repeated atom_blank hq h, repeated, Option.map_none, repeated, blanks]

theorem notRepeated_blank (t : Text) : NotRepeated (blank d ++ t) := by
  intro c hc
  cases d with
  | posix =>
    rw [← Option.some.inj hc]
    decide
  | python =>
    rw [← Option.some.inj hc]
    decide

/-- The expression of fields, each after blanks, to the end of the line. -/
def laidText (d : Dialect) : List Text → Text
  | [] => blank d ++ "*$".toList
  | f :: fs => blank d ++ '+' :: (quote f ++ laidText d fs)

theorem notRepeated_laidText (fs : List Text) : NotRepeated (laidText d fs) := by
  cases fs <;> exact notRepeated_blank _

theorem length_laid_le (fs : List Text) : (laid (isBlank d) fs).length ≤ (laidText d fs).length := by
  induction fs with
  | nil => cases d <;> decide
  | cons f fs ih =>
    have hq := length_le_quote f
    simp only [laid, laidText, List.length_cons, List.length_append, List.length_map]
    omega

/-- Fields are read one after the other. -/
theorem run_laidText (hfs : ∀ g ∈ fs, ∀ c ∈ g, Quotable c) :
    run d ((laid (isBlank d) fs).length + n) [] f (laidText d fs) =
      some ({ f with items := f.items ++ laid (isBlank d) fs } : Frame).whole := by
  induction fs generalizing f with
  | nil =>
    have hlen : (laid (isBlank d) []).length + n = n + 1 + 1 := by
      change 2 + n = _
      omega
    have heol : atom d ['$'] = some (eol, false, []) := by rw [atom]
    rw [hlen, laidText]
    change run d (n + 1 + 1) [] f (blank d ++ '*' :: ['$']) = _
    rw [run_star_blank (by decide), run_anchor heol, run_nil]
    simp only [Frame.add, List.append_assoc]
    rfl
  | cons g fs ih =>
    obtain ⟨hg, htl⟩ := List.forall_mem_cons.mp hfs
    have hnext := notRepeated_quote_append hg (notRepeated_laidText (d := d) fs)
    have hlen : (laid (isBlank d) (g :: fs)).length + n =
        g.length + ((laid (isBlank d) fs).length + n) + 1 := by
      simp only [laid, List.length_cons, List.length_append, List.length_map]
      omega
    rw [hlen, laidText, run_blanks hnext, run_quote hg (notRepeated_laidText fs), ih htl]
    simp only [Frame.add, laid, List.append_assoc]
    rfl

/-- The expression of the fields of a line. -/
def lineText (d : Dialect) (g : Text) (fs : List Text) : Text :=
  '^' :: (blank d ++ '*' :: (quote g ++ laidText d fs))

/-- **Quoted fields with blanks between and around them** are read as a line. -/
theorem parse_lineText (hg : ∀ c ∈ g, Quotable c) (hfs : ∀ g ∈ fs, ∀ c ∈ g, Quotable c) :
    parse d (lineText d g fs) = some (line (isBlank d) g fs) := by
  have hnext := notRepeated_quote_append hg (notRepeated_laidText (d := d) fs)
  have hbol : ∀ t, atom d ('^' :: t) = some (bol, false, t) := fun t => by rw [atom]
  obtain ⟨k, hk⟩ : ∃ k, (lineText d g fs).length =
      g.length + ((laid (isBlank d) fs).length + k) + 1 + 1 := by
    have hq := length_le_quote g
    have hl := length_laid_le (d := d) fs
    refine ⟨(lineText d g fs).length - (g.length + (laid (isBlank d) fs).length + 2), ?_⟩
    simp only [lineText, List.length_cons, List.length_append]
    omega
  rw [parse, hk, lineText, run_anchor (hbol _), run_star_blank hnext,
    run_quote hg (notRepeated_laidText fs), run_laidText hfs]
  simp only [Frame.add, Frame.start, List.nil_append, List.append_assoc]
  rfl

theorem simple_laidText (hfs : ∀ g ∈ fs, '[' ∉ g) : Simple d (laidText d fs) := by
  induction fs with
  | nil => exact .blank (.other (by decide) (.other (by decide) .nil))
  | cons g fs ih =>
    obtain ⟨hg, htl⟩ := List.forall_mem_cons.mp hfs
    exact .blank (.other (by decide) ((simple_quote hg).append (ih htl)))

theorem simple_lineText (hg : '[' ∉ g) (hfs : ∀ g ∈ fs, '[' ∉ g) : Simple d (lineText d g fs) :=
  .other (by decide) (.blank (.other (by decide) ((simple_quote hg).append (simple_laidText hfs))))

theorem getLast?_laidText (fs : List Text) : (laidText d fs).getLast? = some '$' := by
  induction fs with
  | nil => cases d <;> rfl
  | cons g fs ih =>
    have hne : laidText d fs ≠ [] := fun e => by
      rw [e] at ih
      exact absurd ih (by simp)
    rw [laidText, List.getLast?_append_of_ne_nil _ (List.cons_ne_nil _ _), List.getLast?_cons,
      List.getLast?_append_of_ne_nil _ hne, ih]
    rfl

/-- What stands in no text stands not in its quotation. -/
theorem not_mem_quote {c : Char} (hc : c ≠ '\\') (h : c ∉ t) : c ∉ quote t := by
  intro hm
  obtain ⟨x, hx, hcx⟩ := List.mem_flatMap.mp hm
  split at hcx
  · rcases List.mem_cons.mp hcx with e | hcx
    · exact hc e
    · exact h (List.mem_singleton.mp hcx ▸ hx)
  · exact h (List.mem_singleton.mp hcx ▸ hx)

theorem mem_quote {c : Char} (h : c ∈ t) : c ∈ quote t := by
  refine List.mem_flatMap.mpr ⟨c, h, ?_⟩
  split
  · exact List.mem_cons_of_mem _ (List.mem_singleton_self c)
  · exact List.mem_singleton_self c

/-- A character with no part in the expression of a line. -/
def Foreign (d : Dialect) (c : Char) : Prop := c ∉ "^*+$\\".toList ∧ c ∉ blank d

instance (c : Char) : Decidable (Foreign d c) := inferInstanceAs (Decidable (_ ∧ _))

theorem Foreign.ne {c x : Char} (h : Foreign d c) (hx : x ∈ "^*+$\\".toList) : c ≠ x :=
  fun e => h.1 (e ▸ hx)

theorem Foreign.not_mem_laidText {c : Char} (hc : Foreign d c) (h : ∀ x ∈ fs, c ∉ x) :
    c ∉ laidText d fs := by
  induction fs with
  | nil =>
    intro hm
    rcases List.mem_append.mp hm with hm | hm
    · exact hc.2 hm
    · rcases List.mem_cons.mp hm with e | hm
      · exact hc.ne (by decide) e
      · exact hc.ne (by decide) (List.mem_singleton.mp hm)
  | cons x xs ih =>
    obtain ⟨hx, hxs⟩ := List.forall_mem_cons.mp h
    intro hm
    rcases List.mem_append.mp hm with hm | hm
    · exact hc.2 hm
    · rcases List.mem_cons.mp hm with e | hm
      · exact hc.ne (by decide) e
      · exact (List.mem_append.mp hm).elim (not_mem_quote (hc.ne (by decide)) hx) (ih hxs)

/-- What stands in no field stands not in the expression. -/
theorem Foreign.not_mem_lineText {c : Char} (hc : Foreign d c) (h : ∀ x ∈ g :: fs, c ∉ x) :
    c ∉ lineText d g fs := by
  obtain ⟨hg, hfs⟩ := List.forall_mem_cons.mp h
  intro hm
  rcases List.mem_cons.mp hm with e | hm
  · exact hc.ne (by decide) e
  · rcases List.mem_append.mp hm with hm | hm
    · exact hc.2 hm
    · rcases List.mem_cons.mp hm with e | hm
      · exact hc.ne (by decide) e
      · exact (List.mem_append.mp hm).elim (not_mem_quote (hc.ne (by decide)) hg)
          (hc.not_mem_laidText hfs)

/-! ### The beginning of a line, and its end -/

/-- The expression of fields, each after blanks, and blanks after the last. -/
def openedText (d : Dialect) : List Text → Text
  | [] => blank d ++ ['+']
  | f :: fs => blank d ++ '+' :: (quote f ++ openedText d fs)

/-- The expression of the first fields of a line. -/
def lineBeginText (d : Dialect) (g : Text) (fs : List Text) : Text :=
  '^' :: (blank d ++ '*' :: (quote g ++ openedText d fs))

/-- The expression of the last field of a line. -/
def lineEndText (d : Dialect) (g : Text) : Text := blank d ++ (quote g ++ laidText d [])

theorem notRepeated_openedText (fs : List Text) : NotRepeated (openedText d fs) := by
  cases fs <;> exact notRepeated_blank _

theorem length_opened_le (fs : List Text) :
    (opened (isBlank d) fs).length ≤ (openedText d fs).length := by
  induction fs with
  | nil => cases d <;> decide
  | cons f fs ih =>
    have hq := length_le_quote f
    simp only [opened, openedText, List.length_cons, List.length_append, List.length_map]
    omega

theorem run_openedText (hfs : ∀ g ∈ fs, ∀ c ∈ g, Quotable c) :
    run d ((opened (isBlank d) fs).length + n) [] f (openedText d fs) =
      some ({ f with items := f.items ++ opened (isBlank d) fs } : Frame).whole := by
  induction fs generalizing f with
  | nil =>
    have hlen : (opened (isBlank d) []).length + n = n + 1 := by
      change 1 + n = _
      omega
    rw [hlen, openedText, run_blanks (by decide), run_nil]
    rfl
  | cons g fs ih =>
    obtain ⟨hg, htl⟩ := List.forall_mem_cons.mp hfs
    have hnext := notRepeated_quote_append hg (notRepeated_openedText (d := d) fs)
    have hlen : (opened (isBlank d) (g :: fs)).length + n =
        g.length + ((opened (isBlank d) fs).length + n) + 1 := by
      simp only [opened, List.length_cons, List.length_append, List.length_map]
      omega
    rw [hlen, openedText, run_blanks hnext, run_quote hg (notRepeated_openedText fs), ih htl]
    simp only [Frame.add, opened, List.append_assoc]
    rfl

/-- **Quoted fields, each followed by blanks**, are read as the beginning of a line. -/
theorem parse_lineBeginText (hg : ∀ c ∈ g, Quotable c) (hfs : ∀ g ∈ fs, ∀ c ∈ g, Quotable c) :
    parse d (lineBeginText d g fs) = some (lineBegin (isBlank d) g fs) := by
  have hnext := notRepeated_quote_append hg (notRepeated_openedText (d := d) fs)
  have hbol : ∀ t, atom d ('^' :: t) = some (bol, false, t) := fun t => by rw [atom]
  obtain ⟨k, hk⟩ : ∃ k, (lineBeginText d g fs).length =
      g.length + ((opened (isBlank d) fs).length + k) + 1 + 1 := by
    have hq := length_le_quote g
    have hl := length_opened_le (d := d) fs
    refine ⟨(lineBeginText d g fs).length - (g.length + (opened (isBlank d) fs).length + 2), ?_⟩
    simp only [lineBeginText, List.length_cons, List.length_append]
    omega
  rw [parse, hk, lineBeginText, run_anchor (hbol _), run_star_blank hnext,
    run_quote hg (notRepeated_openedText fs), run_openedText hfs]
  simp only [Frame.add, Frame.start, List.nil_append, List.append_assoc]
  rfl

/-- **A quoted field between blanks** is read as the end of a line. -/
theorem parse_lineEndText (hg : ∀ c ∈ g, Quotable c) :
    parse d (lineEndText d g) = some (lineEnd (isBlank d) g) := by
  have hnext := notRepeated_quote_append hg (notRepeated_laidText (d := d) [])
  have hnil : ∀ g ∈ ([] : List Text), ∀ c ∈ g, Quotable c := fun _ hm => absurd hm List.not_mem_nil
  obtain ⟨k, hk⟩ : ∃ k, (lineEndText d g).length =
      g.length + ((laid (isBlank d) []).length + k) + 1 := by
    have hq := length_le_quote g
    have hl := length_laid_le (d := d) []
    have hb : 0 < (blank d).length := by cases d <;> decide
    refine ⟨(lineEndText d g).length - (g.length + (laid (isBlank d) []).length + 1), ?_⟩
    simp only [lineEndText, List.length_append]
    omega
  rw [parse, hk, lineEndText, run_atom atom_blank hnext, run_quote hg (notRepeated_laidText []),
    run_laidText hnil]
  simp only [Frame.add, Frame.start, List.nil_append, List.append_assoc]
  rfl

theorem simple_lineBeginText (hg : '[' ∉ g) (hfs : ∀ g ∈ fs, '[' ∉ g) :
    Simple d (lineBeginText d g fs) := by
  have hopened : Simple d (openedText d fs) := by
    induction fs with
    | nil => exact .blank (.other (by decide) .nil)
    | cons g fs ih =>
      obtain ⟨hg, htl⟩ := List.forall_mem_cons.mp hfs
      exact .blank (.other (by decide) ((simple_quote hg).append (ih htl)))
  exact .other (by decide) (.blank (.other (by decide) ((simple_quote hg).append hopened)))

theorem simple_lineEndText (hg : '[' ∉ g) : Simple d (lineEndText d g) :=
  .blank ((simple_quote hg).append (simple_laidText fun _ hm => absurd hm List.not_mem_nil))

theorem Foreign.not_mem_lineBeginText {c : Char} (hc : Foreign d c) (h : ∀ x ∈ g :: fs, c ∉ x) :
    c ∉ lineBeginText d g fs := by
  have hopened : ∀ fs : List Text, (∀ x ∈ fs, c ∉ x) → c ∉ openedText d fs := by
    intro fs hfs
    induction fs with
    | nil =>
      exact fun hm => (List.mem_append.mp hm).elim hc.2 fun hm =>
        hc.ne (by decide) (List.mem_singleton.mp hm)
    | cons x xs ih =>
      obtain ⟨hx, hxs⟩ := List.forall_mem_cons.mp hfs
      intro hm
      rcases List.mem_append.mp hm with hm | hm
      · exact hc.2 hm
      · rcases List.mem_cons.mp hm with e | hm
        · exact hc.ne (by decide) e
        · exact (List.mem_append.mp hm).elim (not_mem_quote (hc.ne (by decide)) hx) (ih hxs)
  obtain ⟨hg, hfs⟩ := List.forall_mem_cons.mp h
  intro hm
  rcases List.mem_cons.mp hm with e | hm
  · exact hc.ne (by decide) e
  · rcases List.mem_append.mp hm with hm | hm
    · exact hc.2 hm
    · rcases List.mem_cons.mp hm with e | hm
      · exact hc.ne (by decide) e
      · exact (List.mem_append.mp hm).elim (not_mem_quote (hc.ne (by decide)) hg) (hopened fs hfs)

theorem Foreign.not_mem_lineEndText {c : Char} (hc : Foreign d c) (h : c ∉ g) :
    c ∉ lineEndText d g := by
  intro hm
  rcases List.mem_append.mp hm with hm | hm
  · exact hc.2 hm
  · exact (List.mem_append.mp hm).elim (not_mem_quote (hc.ne (by decide)) h)
      (hc.not_mem_laidText fun _ hx => absurd hx List.not_mem_nil)

end Lines

end Ere

/-! ## The deletions of `sed -E` -/

/-- The expression up to the bar that ends it, and what follows the bar. -/
def cutBar : Text → Option (Text × Text)
  | [] => none
  | '|' :: cs => some ([], cs)
  | '\\' :: c :: cs => (cutBar cs).map fun p => ('\\' :: c :: p.1, p.2)
  | c :: cs => (cutBar cs).map fun p => (c :: p.1, p.2)

/-- The address `\|..|` a script begins with, and what follows it. -/
def address : Text → Option (Text × Text)
  | '\\' :: '|' :: cs => cutBar cs
  | _ => none

/-- The lines that `\|..|d` deletes, or `\|..|\x7b\|..|!d\x7d`: `none` for any other script. -/
def deletes (script : Text) : Option (Text → Bool) :=
  match address script with
  | some (expression, ['d']) => (Ere.parse .posix expression).map Ere.search
  | some (expression, '\x7b' :: inner) =>
    match address inner with
    | some (kept, ['!', 'd', '\x7d']) =>
      match Ere.parse .posix expression, Ere.parse .posix kept with
      | some r, some s => some fun l => r.search l && !s.search l
      | _, _ => none
    | _ => none
  | _ => none

theorem cutBar_cons {c : Char} {cs : Text} (h₁ : c ≠ '|') (h₂ : c ≠ '\\') :
    cutBar (c :: cs) = (cutBar cs).map fun p => (c :: p.1, p.2) := by
  rw [cutBar]
  · exact h₁
  · exact fun _ _ e => absurd e h₂

theorem cutBar_escaped (c : Char) (cs : Text) :
    cutBar ('\\' :: c :: cs) = (cutBar cs).map fun p => ('\\' :: c :: p.1, p.2) := by
  rw [cutBar]

theorem cutBar_spaceClass (cs : Text) :
    cutBar (spaceClass ++ cs) = (cutBar cs).map fun p => (spaceClass ++ p.1, p.2) := by
  have hpass : ∀ w : Text, (∀ c ∈ w, c ≠ '|' ∧ c ≠ '\\') →
      cutBar (w ++ cs) = (cutBar cs).map fun p => (w ++ p.1, p.2) := fun w hw => by
    induction w with
    | nil => simp
    | cons c w ih =>
      obtain ⟨hc, htl⟩ := List.forall_mem_cons.mp hw
      rw [List.cons_append, cutBar_cons hc.1 hc.2, ih htl, Option.map_map]
      rfl
  exact hpass spaceClass (by decide)

/-- A simple expression without a bar is cut off at the bar that follows it. -/
theorem cutBar_append {u rest : Text} (h : Ere.Simple .posix u) (hbar : '|' ∉ u) :
    cutBar (u ++ '|' :: rest) = some (u, rest) := by
  induction h with
  | nil => rw [List.nil_append, cutBar]
  | @blank t _ ih =>
    have htl : '|' ∉ t := fun hm => hbar (List.mem_append_right _ hm)
    change cutBar (spaceClass ++ t ++ '|' :: rest) = some (spaceClass ++ t, rest)
    rw [List.append_assoc, cutBar_spaceClass, ih htl]
    rfl
  | @escaped c t _ _ ih =>
    have htl : '|' ∉ t := fun hm => hbar (List.mem_cons_of_mem _ (List.mem_cons_of_mem _ hm))
    rw [List.cons_append, List.cons_append, cutBar_escaped, ih htl]
    rfl
  | @other c t hc _ ih =>
    have htl : '|' ∉ t := fun hm => hbar (List.mem_cons_of_mem _ hm)
    have hback : c ≠ '\\' := fun e => hc (e ▸ List.mem_cons_self)
    rw [List.cons_append, cutBar_cons (fun e => hbar (e ▸ List.mem_cons_self)) hback, ih htl]
    rfl

/-- A bar of its own ends a simple expression early. -/
theorem exists_cutBar {u : Text} (h : Ere.Simple .posix u) (hbar : '|' ∈ u) (rest : Text) :
    ∃ e v, cutBar (u ++ rest) = some (e, v ++ rest) := by
  induction h with
  | nil => exact absurd hbar List.not_mem_nil
  | @blank t _ ih =>
    obtain ⟨e, v, hv⟩ := ih ((List.mem_append.mp hbar).resolve_left (by decide))
    refine ⟨spaceClass ++ e, v, ?_⟩
    change cutBar (spaceClass ++ t ++ rest) = _
    rw [List.append_assoc, cutBar_spaceClass, hv]
    rfl
  | @escaped c t hc _ ih =>
    have htl : '|' ∈ t := by
      rcases List.mem_cons.mp hbar with e | hm
      · exact absurd e (by decide)
      · rcases List.mem_cons.mp hm with rfl | hm
        · exact absurd hc (by decide)
        · exact hm
    obtain ⟨e, v, hv⟩ := ih htl
    exact ⟨'\\' :: c :: e, v, by rw [List.cons_append, List.cons_append, cutBar_escaped, hv]; rfl⟩
  | @other c t hc _ ih =>
    by_cases hb : c = '|'
    · subst hb
      exact ⟨[], t, by rw [List.cons_append, cutBar]⟩
    · obtain ⟨e, v, hv⟩ := ih ((List.mem_cons.mp hbar).resolve_left (Ne.symm hb))
      have hback : c ≠ '\\' := fun e => hc (e ▸ List.mem_cons_self)
      exact ⟨c :: e, v, by rw [List.cons_append, cutBar_cons hb hback, hv]; rfl⟩

theorem suffix_of_cutBar {t e rest : Text} (h : cutBar t = some (e, rest)) : rest <:+ t := by
  fun_induction cutBar t generalizing e with
  | case1 => exact absurd h (Option.some_ne_none _).symm
  | case2 cs =>
    obtain ⟨-, rfl⟩ := by simpa using h
    exact List.suffix_cons _ _
  | case3 c cs ih =>
    obtain ⟨p, hp, he⟩ := Option.map_eq_some_iff.mp h
    obtain ⟨-, rfl⟩ := Prod.mk.inj he
    exact (ih hp).trans ⟨['\\', c], rfl⟩
  | case4 c cs _ _ ih =>
    obtain ⟨p, hp, he⟩ := Option.map_eq_some_iff.mp h
    obtain ⟨-, rfl⟩ := Prod.mk.inj he
    exact (ih hp).trans (List.suffix_cons _ _)

/-- **A script that deletes what a simple expression selects**, read as it is meant. -/
theorem deletes_append {u : Text} (h : Ere.Simple .posix u) (hbar : '|' ∉ u) :
    deletes ("\\|".toList ++ u ++ "|d".toList) = (Ere.parse .posix u).map Ere.search := by
  have ha : address ("\\|".toList ++ u ++ "|d".toList) = some (u, ['d']) := by
    change cutBar (u ++ '|' :: ['d']) = _
    exact cutBar_append h hbar
  rw [deletes, ha]
  rfl

/-- **A bar in the expression** makes it another script. -/
theorem deletes_of_mem {u : Text} (h : Ere.Simple .posix u) (hbar : '|' ∈ u) :
    deletes ("\\|".toList ++ u ++ "|d".toList) = none := by
  obtain ⟨e, v, hv⟩ := exists_cutBar h hbar "|d".toList
  have ha : address ("\\|".toList ++ u ++ "|d".toList) = some (e, v ++ "|d".toList) := hv
  have hlast : ∀ w, w <:+ v ++ "|d".toList → w ≠ [] → w.getLast? = some 'd' := fun w hw hne => by
    obtain ⟨x, hx⟩ := hw
    have := congrArg List.getLast? hx
    rwa [List.getLast?_append_of_ne_nil _ hne, List.getLast?_append_of_ne_nil _ (by decide)] at this
  rw [deletes, ha]
  split
  · rename_i expression heq
    have hlen := congrArg (fun x => x.2.length) (Option.some.inj heq)
    simp at hlen
  · rename_i expression inner heq
    obtain ⟨-, hinner⟩ := Prod.mk.inj (Option.some.inj heq)
    split
    · rename_i kept hkept
      have hsuf : ['!', 'd', '\x7d'] <:+ v ++ "|d".toList := by
        rw [hinner]
        rw [address.eq_def] at hkept
        split at hkept
        · rename_i cs
          exact (suffix_of_cutBar hkept).trans ⟨['\x7b', '\\', '|'], rfl⟩
        · exact absurd hkept (Option.some_ne_none _).symm
      exact absurd (hlast _ hsuf (by decide)) (by decide)
    · rfl
  · rfl

/-- The nested script of a removal that keeps some of the lines. -/
theorem deletes_nested {u v : Text} (hu : Ere.Simple .posix u) (hv : Ere.Simple .posix v)
    (hubar : '|' ∉ u) (hvbar : '|' ∉ v) {r s : Ere} (hr : Ere.parse .posix u = some r)
    (hs : Ere.parse .posix v = some s) :
    deletes ("\\|".toList ++ u ++ "|\x7b\\|".toList ++ v ++ "|!d\x7d".toList) =
      some fun l => r.search l && !s.search l := by
  have ha : address ("\\|".toList ++ u ++ "|\x7b\\|".toList ++ v ++ "|!d\x7d".toList) =
      some (u, '\x7b' :: '\\' :: '|' :: (v ++ "|!d\x7d".toList)) := by
    rw [List.append_assoc, List.append_assoc, List.append_assoc]
    change cutBar (u ++ '|' :: ('\x7b' :: '\\' :: '|' :: (v ++ "|!d\x7d".toList))) = _
    exact cutBar_append hu hubar
  have hi : address ('\\' :: '|' :: (v ++ "|!d\x7d".toList)) = some (v, ['!', 'd', '\x7d']) := by
    change cutBar (v ++ '|' :: ['!', 'd', '\x7d']) = _
    exact cutBar_append hv hvbar
  rw [deletes, ha]
  simp only [hi, hr, hs]

end LabInABox.Text
