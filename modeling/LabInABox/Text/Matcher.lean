import LabInABox.Text.Lines

/-!
# Searching a text, and deleting what matches

The leftmost match of a pattern in a text, and the text without its matches, as `re.search` and
`re.sub(pattern, "", text)` find them. A pattern is what it does at the start of a text:

* `firstMatch` takes the answer at the first position that has one.
* `deleteMatches` is given the length of the match, if there is one, and goes on after it; its counter
  is what is left of the last match.
* `replaceMatches` is given the length of the match and what stands for it.
* `enclosedAt` is the pattern of a text that opens, anything but a closing character, and that
  character.

Results:
* `firstMatch_append`, `deleteMatches_append`: positions without a match are passed over.
* `deleteMatches_skip`, `replaceMatches_skip`: a match goes as a whole.
* `not_opener_before_blank`: an opening text without blanks does not go beyond one.
-/

namespace LabInABox.Text

section Match

variable {α : Type*}

/-- The answer at the first position that has one. -/
def firstMatch (m : Text → Option α) : Text → Option α
  | [] => none
  | c :: cs => (m (c :: cs)).or (firstMatch m cs)

/-- The text without its matches, whose lengths `m` gives. -/
def deleteMatches (m : Text → Option Nat) : Nat → Text → Text
  | _, [] => []
  | skip + 1, _ :: cs => deleteMatches m skip cs
  | 0, c :: cs =>
    match m (c :: cs) with
    | some length => deleteMatches m (length - 1) cs
    | none => c :: deleteMatches m 0 cs

/-- The text with its matches replaced. -/
def replaceMatches (m : Text → Option (Nat × Text)) : Nat → Text → Text
  | _, [] => []
  | skip + 1, _ :: cs => replaceMatches m skip cs
  | 0, c :: cs =>
    match m (c :: cs) with
    | some (length, out) => out ++ replaceMatches m (length - 1) cs
    | none => c :: replaceMatches m 0 cs

variable {m : Text → Option α} {d : Text → Option Nat} {u r t : Text}

theorem firstMatch_eq_none (h : ∀ s, s ≠ [] → s <:+ t → m s = none) : firstMatch m t = none := by
  induction t with
  | nil => rfl
  | cons c cs ih =>
    rw [firstMatch, h _ (List.cons_ne_nil _ _) (List.suffix_refl _), Option.none_or]
    exact ih fun s hne hs => h s hne (hs.trans (List.suffix_cons c cs))

theorem firstMatch_eq_some {x : α} (hne : t ≠ []) (h : m t = some x) : firstMatch m t = some x := by
  cases t with
  | nil => exact absurd rfl hne
  | cons c cs => rw [firstMatch, h, Option.some_or]

/-- **Positions without a match are passed over** in a search. -/
theorem firstMatch_append (h : ∀ s, s ≠ [] → s <:+ u → m (s ++ r) = none) :
    firstMatch m (u ++ r) = firstMatch m r := by
  induction u with
  | nil => rfl
  | cons c cs ih =>
    rw [List.cons_append, firstMatch, ← List.cons_append,
      h _ (List.cons_ne_nil _ _) (List.suffix_refl _), Option.none_or]
    exact ih fun s hne hs => h s hne (hs.trans (List.suffix_cons c cs))

/-- **Positions without a match stay.** -/
theorem deleteMatches_append (h : ∀ s, s ≠ [] → s <:+ u → d (s ++ r) = none) :
    deleteMatches d 0 (u ++ r) = u ++ deleteMatches d 0 r := by
  induction u with
  | nil => rfl
  | cons c cs ih =>
    rw [List.cons_append, deleteMatches, ← List.cons_append,
      h _ (List.cons_ne_nil _ _) (List.suffix_refl _)]
    exact congrArg (c :: ·) (ih fun s hne hs => h s hne (hs.trans (List.suffix_cons c cs)))

theorem deleteMatches_eq_self (h : ∀ s, s ≠ [] → s <:+ t → d s = none) :
    deleteMatches d 0 t = t := by
  have happend := deleteMatches_append (u := t) (r := []) (d := d) fun s hne hs => by
    rw [List.append_nil]
    exact h s hne hs
  rwa [List.append_nil, deleteMatches, List.append_nil] at happend

/-- **A match goes as a whole.** -/
theorem deleteMatches_skip (u r : Text) : deleteMatches d u.length (u ++ r) = deleteMatches d 0 r := by
  induction u with
  | nil => rfl
  | cons c cs ih => exact ih

theorem deleteMatches_match (hne : u ≠ []) (h : d (u ++ r) = some u.length) :
    deleteMatches d 0 (u ++ r) = deleteMatches d 0 r := by
  cases u with
  | nil => exact absurd rfl hne
  | cons c cs =>
    rw [List.cons_append, deleteMatches, ← List.cons_append, h]
    exact deleteMatches_skip cs r

theorem replaceMatches_skip {m : Text → Option (Nat × Text)} (u r : Text) :
    replaceMatches m u.length (u ++ r) = replaceMatches m 0 r := by
  induction u with
  | nil => rfl
  | cons c cs ih => exact ih

theorem replaceMatches_none {m : Text → Option (Nat × Text)} {c : Char} {cs : Text}
    (h : m (c :: cs) = none) : replaceMatches m 0 (c :: cs) = c :: replaceMatches m 0 cs := by
  rw [replaceMatches, h]

theorem replaceMatches_some {m : Text → Option (Nat × Text)} {c : Char} {cs out : Text} {length : Nat}
    (h : m (c :: cs) = some (length + 1, out)) :
    replaceMatches m 0 (c :: cs) = out ++ replaceMatches m length cs := by
  rw [replaceMatches, h]
  rfl

end Match

/-! ## What an opening text and a closing character enclose -/

variable {opener body s t u r : Text} {closer : Char}

/-- What the opening text and the next closing character enclose, at the start of a text; it is not
empty. -/
def enclosedAt (opener : Text) (closer : Char) (t : Text) : Option Text :=
  let rest := t.drop opener.length
  if opener <+: t ∧ rest.head? ≠ some closer ∧ closer ∈ rest then some (rest.takeWhile (· ≠ closer))
  else none

theorem enclosedAt_eq_none (h : opener <+: t → closer ∉ t) : enclosedAt opener closer t = none := by
  unfold enclosedAt
  rw [if_neg]
  rintro ⟨hopen, _, hclose⟩
  exact h hopen (List.mem_of_mem_drop hclose)

theorem enclosedAt_append (hne : body ≠ []) (h : closer ∉ body) (r : Text) :
    enclosedAt opener closer (opener ++ (body ++ closer :: r)) = some body := by
  have hhead : (body ++ closer :: r).head? ≠ some closer := by
    cases body with
    | nil => exact absurd rfl hne
    | cons c cs =>
      intro hc
      exact h (Option.some.inj hc ▸ List.mem_cons_self)
  have htake : (body ++ closer :: r).takeWhile (· ≠ closer) = body := by
    have hall : ∀ c ∈ body, decide (c ≠ closer) = true := fun c hc =>
      decide_eq_true fun he => h (he ▸ hc)
    rw [List.takeWhile_append_of_pos hall, List.takeWhile_cons_of_neg (by simp), List.append_nil]
  unfold enclosedAt
  rw [List.drop_left, if_pos ⟨List.prefix_append _ _, hhead, by simp⟩, htake]

/-- An opening text without blanks does not go beyond one. -/
theorem not_opener_before_blank {b : Char} (hopener : ∀ c ∈ opener, isSpace c = false)
    (hb : isSpace b = true) (hu : ¬ opener <:+: u) (hs : s <:+ u) (r : Text) :
    ¬ opener <+: s ++ b :: r := by
  have hmem : b ∉ opener := fun hm => absurd hb (by rw [hopener b hm]; exact Bool.false_ne_true)
  rw [prefix_append_cons_iff r hmem]
  exact fun h => hu (h.isInfix.trans hs.isInfix)

/-- Nor does it begin with one. -/
theorem not_opener_of_blank {b : Char} (hne : opener ≠ []) (hopener : ∀ c ∈ opener, isSpace c = false)
    (hb : isSpace b = true) (r : Text) : ¬ opener <+: b :: r := by
  cases opener with
  | nil => exact absurd rfl hne
  | cons c cs =>
    intro h
    rw [List.cons_prefix_cons] at h
    have hc := hopener c List.mem_cons_self
    rw [h.1, hb] at hc
    cases hc

end LabInABox.Text
