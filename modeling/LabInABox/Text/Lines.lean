import LabInABox.Text.Fields

/-!
# Text: lines

A file is read in two ways. The shell tools (`grep`, `sed`, `awk`, `wc -l`) end a line at `'\n'`:
`lines`, with `unlines` its inverse on lines without one. Python's `str.splitlines` also ends a
line at the other line boundaries, and takes `"\r\n"` as one: `splitlines`.

`openLine t` is what follows the last line boundary of `t`: the line a later write continues when
the text does not end in a newline.

Results:
* `lines_unlines`: lines written one by one are read back.
* `splitlines_strip_unlines`: the same for `splitlines` over the stripped text, which is how the
  output of a remote `cat` is read, for lines that begin and end with a character that is no blank.
* `splitlines_append_line`: appending to a text extends its open line and leaves the others.
* `exists_mem_lines_infix_iff`: a needle without a newline is in a line iff it is in the text.
-/

namespace LabInABox.Text

/-! ## Lines of the shell tools -/

/-- The lines of a file, ended by `'\n'`; a last line without one counts. -/
def lines : Text → List Text
  | [] => []
  | c :: cs => if c = '\n' then [] :: lines cs else consHead c (lines cs)

/-- A file holding the given lines. -/
def unlines (ls : List Text) : Text := ls.flatMap (· ++ ['\n'])

@[simp] theorem unlines_nil : unlines [] = [] := rfl

theorem unlines_cons (l : Text) (ls : List Text) : unlines (l :: ls) = l ++ '\n' :: unlines ls := by
  simp [unlines]

theorem unlines_append (ls ls' : List Text) : unlines (ls ++ ls') = unlines ls ++ unlines ls' :=
  List.flatMap_append

theorem lines_append_newline {l : Text} (h : '\n' ∉ l) (t : Text) :
    lines (l ++ '\n' :: t) = l :: lines t := by
  induction l with
  | nil => rfl
  | cons c cs ih =>
    have hc : c ≠ '\n' := fun e => h (e ▸ List.mem_cons_self)
    rw [List.cons_append, lines, if_neg hc, ih fun hm => h (List.mem_cons_of_mem _ hm)]
    rfl

/-- **Lines written one by one are read back.** -/
theorem lines_unlines : ∀ {ls : List Text}, (∀ l ∈ ls, '\n' ∉ l) → lines (unlines ls) = ls
  | [], _ => rfl
  | l :: ls, h => by
    rw [unlines_cons, lines_append_newline (h l List.mem_cons_self),
      lines_unlines fun x hx => h x (List.mem_cons_of_mem _ hx)]

theorem lines_of_not_mem {t : Text} (hne : t ≠ []) (h : '\n' ∉ t) : lines t = [t] := by
  induction t with
  | nil => exact absurd rfl hne
  | cons c cs ih =>
    have hc : c ≠ '\n' := fun e => h (e ▸ List.mem_cons_self)
    rw [lines, if_neg hc]
    cases cs with
    | nil => rfl
    | cons d ds =>
      rw [ih (List.cons_ne_nil _ _) fun hm => h (List.mem_cons_of_mem _ hm)]
      rfl

/-- A needle without `s` is a prefix of a text iff it is one of what stands before the first `s`. -/
theorem prefix_append_cons_iff {s : Char} : ∀ {r l : Text} (t : Text), s ∉ r →
    (r <+: l ++ s :: t ↔ r <+: l)
  | [], _, _, _ => by simp
  | x :: xs, [], t, h => by
    constructor
    · intro hp
      exact absurd ((List.cons_prefix_cons.mp hp).1 ▸ List.mem_cons_self) h
    · intro hp
      exact absurd (List.prefix_nil.mp hp) (List.cons_ne_nil _ _)
  | x :: xs, c :: cs, t, h => by
    rw [List.cons_append, List.cons_prefix_cons, List.cons_prefix_cons,
      prefix_append_cons_iff t fun hm => h (List.mem_cons_of_mem _ hm)]

/-- A needle without `s` lies on one side of an `s`. -/
theorem infix_append_cons_iff {s : Char} {r : Text} (h : s ∉ r) (l t : Text) :
    r <:+: l ++ s :: t ↔ r <:+: l ∨ r <:+: t := by
  induction l with
  | nil =>
    rw [List.nil_append, List.infix_cons_iff]
    have hp := prefix_append_cons_iff (l := []) t h
    rw [List.nil_append] at hp
    rw [hp, List.prefix_nil, List.infix_nil]
  | cons c cs ih =>
    rw [List.cons_append, List.infix_cons_iff, List.infix_cons_iff, ih, ← List.cons_append,
      prefix_append_cons_iff t h, or_assoc]

/-- A nonempty needle without a newline is in a line iff it is in the text. -/
theorem exists_mem_lines_infix_iff {r : Text} (hne : r ≠ []) (hr : '\n' ∉ r) (t : Text) :
    (∃ l ∈ lines t, r <:+: l) ↔ r <:+: t := by
  by_cases hm : '\n' ∈ t
  · obtain ⟨l, u, rfl, hl⟩ := List.eq_append_cons_of_mem hm
    have hlt : u.length < (l ++ '\n' :: u).length := by simp; omega
    rw [lines_append_newline hl, infix_append_cons_iff hr, ← exists_mem_lines_infix_iff hne hr u]
    simp
  · cases t with
    | nil => simp [lines, hne]
    | cons c cs => rw [lines_of_not_mem (List.cons_ne_nil _ _) hm]; simp
termination_by t.length

/-! ## Lines of `str.splitlines` -/

/-- `str.splitlines()`. -/
def splitlines : Text → List Text
  | [] => []
  | '\r' :: '\n' :: cs => [] :: splitlines cs
  | c :: cs => if isLineBreak c then [] :: splitlines cs else consHead c (splitlines cs)

/-- A text on one line. -/
def OneLine (t : Text) : Prop := ∀ c ∈ t, isLineBreak c = false

instance decidableOneLine (t : Text) : Decidable (OneLine t) :=
  decidable_of_iff ((t.all fun c => !isLineBreak c) = true) (by simp [OneLine])

theorem OneLine.not_mem {t : Text} (h : OneLine t) : '\n' ∉ t :=
  fun hm => absurd (h _ hm) (by decide)

theorem OneLine.of_noSpace {t : Text} (h : ∀ c ∈ t, isSpace c = false) : OneLine t :=
  fun c hc => isLineBreak_of_not_isSpace (h c hc)

theorem splitlines_cons {c : Char} (h : isLineBreak c = false) (cs : Text) :
    splitlines (c :: cs) = consHead c (splitlines cs) := by
  rw [splitlines]
  · simp [h]
  · rintro ds rfl -
    exact absurd h (by decide)

theorem splitlines_newline (cs : Text) : splitlines ('\n' :: cs) = [] :: splitlines cs := by
  rw [splitlines]
  · simp [show isLineBreak '\n' = true by decide]
  · exact fun _ h => absurd h (by decide)

theorem splitlines_append_newline {l : Text} (h : OneLine l) (t : Text) :
    splitlines (l ++ '\n' :: t) = l :: splitlines t := by
  induction l with
  | nil => exact splitlines_newline t
  | cons c cs ih =>
    rw [List.cons_append, splitlines_cons (h c List.mem_cons_self),
      ih fun x hx => h x (List.mem_cons_of_mem _ hx)]
    rfl

theorem splitlines_of_oneLine {l : Text} (hne : l ≠ []) (h : OneLine l) : splitlines l = [l] := by
  induction l with
  | nil => exact absurd rfl hne
  | cons c cs ih =>
    rw [splitlines_cons (h c List.mem_cons_self)]
    cases cs with
    | nil => rfl
    | cons d ds =>
      rw [ih (List.cons_ne_nil _ _) fun x hx => h x (List.mem_cons_of_mem _ hx)]
      rfl

theorem splitlines_unlines : ∀ {ls : List Text}, (∀ l ∈ ls, OneLine l) →
    splitlines (unlines ls) = ls
  | [], _ => rfl
  | l :: ls, h => by
    rw [unlines_cons, splitlines_append_newline (h l List.mem_cons_self),
      splitlines_unlines fun x hx => h x (List.mem_cons_of_mem _ hx)]

theorem splitlines_unlines_append : ∀ {ls : List Text} {t : Text}, (∀ l ∈ ls, OneLine l) →
    splitlines (unlines ls ++ t) = ls ++ splitlines t
  | [], _, _ => rfl
  | l :: ls, t, h => by
    rw [unlines_cons, List.append_assoc, List.cons_append,
      splitlines_append_newline (h l List.mem_cons_self),
      splitlines_unlines_append fun x hx => h x (List.mem_cons_of_mem _ hx)]
    rfl

theorem oneLine_of_mem_splitlines {t : Text} : ∀ l ∈ splitlines t, OneLine l := by
  have hnil : OneLine [] := nofun
  fun_induction splitlines t with
  | case1 => exact fun l hl => absurd hl List.not_mem_nil
  | case2 cs ih => exact fun l hl => (List.mem_cons.mp hl).elim (fun e => e ▸ hnil) (ih l)
  | case3 c cs _ hc ih => exact fun l hl => (List.mem_cons.mp hl).elim (fun e => e ▸ hnil) (ih l)
  | case4 c cs _ hc ih =>
    have hc : isLineBreak c = false := Bool.not_eq_true _ ▸ hc
    intro l hl
    cases hs : splitlines cs with
    | nil =>
      rw [hs, consHead, List.mem_singleton] at hl
      rw [hl]
      exact fun x hx => by rwa [List.mem_singleton.mp hx]
    | cons m ms =>
      rw [hs] at ih hl
      rcases List.mem_cons.mp hl with rfl | hl
      · intro x hx
        rcases List.mem_cons.mp hx with rfl | hx
        · exact hc
        · exact ih m List.mem_cons_self x hx
      · exact ih l (List.mem_cons_of_mem _ hl)

theorem mem_of_mem_splitlines {t l : Text} {c : Char} (hl : l ∈ splitlines t) (hc : c ∈ l) :
    c ∈ t := by
  fun_induction splitlines t generalizing l with
  | case1 => exact absurd hl List.not_mem_nil
  | case2 cs ih =>
    rcases List.mem_cons.mp hl with rfl | hl
    · exact absurd hc List.not_mem_nil
    · exact List.mem_cons_of_mem _ (List.mem_cons_of_mem _ (ih hl hc))
  | case3 d cs _ _ ih =>
    rcases List.mem_cons.mp hl with rfl | hl
    · exact absurd hc List.not_mem_nil
    · exact List.mem_cons_of_mem _ (ih hl hc)
  | case4 d cs _ _ ih =>
    cases hs : splitlines cs with
    | nil =>
      rw [hs, consHead, List.mem_singleton] at hl
      exact List.mem_cons.mpr (Or.inl (List.mem_singleton.mp (hl ▸ hc)))
    | cons m ms =>
      rw [hs] at ih hl
      rcases List.mem_cons.mp hl with rfl | hl
      · rcases List.mem_cons.mp hc with rfl | hc
        · exact List.mem_cons_self
        · exact List.mem_cons_of_mem _ (ih List.mem_cons_self hc)
      · exact List.mem_cons_of_mem _ (ih (List.mem_cons_of_mem _ hl) hc)

/-- Lines joined by newlines, with one at the end. -/
theorem intercalate_append_newline : ∀ {ls : List Text}, ls ≠ [] →
    ['\n'].intercalate ls ++ ['\n'] = unlines ls
  | [], h => absurd rfl h
  | [l], _ => by simp [unlines_cons]
  | l :: m :: ls, _ => by
    rw [List.intercalate_cons_cons, unlines_cons, List.append_assoc, List.append_assoc,
      intercalate_append_newline (List.cons_ne_nil m ls)]
    rfl

/-! ## Entries: lines that survive a stripped read -/

/-- A line that begins and ends with a character that is no blank. -/
structure IsEntry (l : Text) : Prop where
  oneLine : OneLine l
  ne_nil : l ≠ []
  head : ∀ c, l.head? = some c → isSpace c = false
  last : ∀ c, l.getLast? = some c → isSpace c = false

/-- Joined fields are an entry. -/
theorem isEntry_join : ∀ {fs : List Text}, fs ≠ [] → (∀ f ∈ fs, IsField isSpace f) →
    IsEntry (join fs)
  | [], h, _ => absurd rfl h
  | [f], _, h => by
    obtain ⟨hne, hall⟩ := h f List.mem_cons_self
    rw [join_singleton]
    exact ⟨OneLine.of_noSpace hall, hne, fun c hc => hall c (List.mem_of_head? hc),
      fun c hc => hall c (List.mem_of_getLast? hc)⟩
  | f :: g :: fs, _, h => by
    obtain ⟨hne, hall⟩ := h f List.mem_cons_self
    have ih := isEntry_join (List.cons_ne_nil g fs) fun x hx => h x (List.mem_cons_of_mem _ hx)
    rw [join_cons_cons]
    refine ⟨fun c hc => ?_, by simp, fun c hc => ?_, fun c hc => ?_⟩
    · rcases List.mem_append.mp hc with hc | hc
      · exact isLineBreak_of_not_isSpace (hall c hc)
      · rcases List.mem_cons.mp hc with rfl | hc
        · decide
        · exact ih.oneLine c hc
    · obtain ⟨x, xs, rfl⟩ := List.exists_cons_of_ne_nil hne
      exact hall c (by simpa using Or.inl (Option.some.inj hc).symm)
    · rw [List.getLast?_append_of_ne_nil _ (List.cons_ne_nil _ _),
        List.getLast?_cons_of_ne_nil ih.ne_nil] at hc
      exact ih.last c hc

/-- **A file of entries is read back** through the stripped output of `cat`. -/
theorem splitlines_strip_unlines {ls : List Text} (h : ∀ l ∈ ls, IsEntry l) :
    splitlines (strip (unlines ls)) = ls := by
  rcases List.eq_nil_or_concat ls with rfl | ⟨init, z, rfl⟩
  · rfl
  · have hz := h z (by simp)
    have hinit : ∀ l ∈ init, IsEntry l := fun l hl => h l (by simp [hl])
    rw [List.concat_eq_append, unlines_append, unlines_cons, unlines_nil]
    have hstrip : strip (unlines init ++ (z ++ ['\n'])) = unlines init ++ z := by
      rw [← List.append_assoc]
      have hblank : ∀ c ∈ ['\n'], isSpace c = true := by
        rintro c (_ | ⟨_, ⟨⟩⟩)
        decide
      refine strip_append_blank (by simp [hz.ne_nil]) (fun c hc => ?_) (fun c hc => ?_) hblank
      · cases init with
        | nil => exact hz.head c hc
        | cons l rest =>
          have hl := hinit l List.mem_cons_self
          obtain ⟨x, xs, rfl⟩ := List.exists_cons_of_ne_nil hl.ne_nil
          exact hl.head c (by simpa [unlines_cons] using hc)
      · rw [List.getLast?_append_of_ne_nil _ hz.ne_nil] at hc
        exact hz.last c hc
    rw [hstrip]
    clear hstrip h
    induction init with
    | nil => exact splitlines_of_oneLine hz.ne_nil hz.oneLine
    | cons l rest ih =>
      rw [unlines_cons, List.append_assoc, List.cons_append,
        splitlines_append_newline (hinit l List.mem_cons_self).oneLine,
        ih fun x hx => hinit x (List.mem_cons_of_mem _ hx)]
      rfl

/-! ## The open line -/

/-- What follows the last line boundary. -/
def openLine (t : Text) : Text := t.rtakeWhile fun c => !isLineBreak c

/-- Everything up to and with the last line boundary. -/
def closedPart (t : Text) : Text := t.rdropWhile fun c => !isLineBreak c

theorem closedPart_append_openLine (t : Text) : closedPart t ++ openLine t = t :=
  List.rdropWhile_append_rtakeWhile

theorem oneLine_openLine (t : Text) : OneLine (openLine t) := fun c hc => by
  have := List.mem_rtakeWhile_imp hc
  simpa using this

theorem closedPart_last {t : Text} (c : Char) (h : (closedPart t).getLast? = some c) :
    isLineBreak c = true := by
  have hne : closedPart t ≠ [] := fun e => by rw [e] at h; exact absurd h (by simp)
  have hl := List.rdropWhile_last_not (p := fun c => !isLineBreak c) t hne
  rw [List.getLast?_eq_some_getLast hne] at h
  obtain rfl := Option.some.inj h
  rw [Bool.not_eq_true, Bool.not_eq_false'] at hl
  exact hl

/-- A text on one line that ends a text ends its open line. -/
theorem suffix_openLine {u t : Text} (hu : OneLine u) (h : u <:+ t) : u <:+ openLine t := by
  have hopen : openLine t <:+ t := ⟨closedPart t, closedPart_append_openLine t⟩
  rcases List.suffix_or_suffix_of_suffix h hopen with h' | ⟨w, hw⟩
  · exact h'
  · obtain ⟨s, hs⟩ := h
    rcases List.eq_nil_or_concat w with rfl | ⟨v, c, rfl⟩
    · exact ⟨[], hw.symm⟩
    · have hclosed : closedPart t = s ++ (v ++ [c]) := by
        apply List.append_cancel_right
        rw [closedPart_append_openLine, List.append_assoc, ← List.concat_eq_append, hw, hs]
      have hc := closedPart_last (t := t) c (by rw [hclosed, ← List.append_assoc]; simp)
      rw [hu c (by rw [← hw]; simp)] at hc
      exact absurd hc (by simp)

/-- Closed lines do not change when something is appended, but for a `'\n'` that completes a
`'\r'`. -/
theorem splitlines_append_closed {b : Text}
    (hb : ∀ c, b.getLast? = some c → isLineBreak c = true) (x : Text) :
    splitlines (b ++ x) = splitlines b ++ splitlines x ∨
      ∃ y, x = '\n' :: y ∧ splitlines (b ++ x) = splitlines b ++ splitlines y := by
  induction b using splitlines.induct with
  | case1 => exact Or.inl rfl
  | case2 cs ih =>
    rw [List.cons_append, List.cons_append, splitlines, splitlines, List.cons_append]
    cases cs with
    | nil => exact Or.inl rfl
    | cons d ds =>
      rcases ih fun c hc => hb c (by simpa using hc) with h | ⟨y, hy, h⟩
      · exact Or.inl (by rw [h])
      · exact Or.inr ⟨y, hy, by rw [h]; rfl⟩
  | case3 c cs hcrlf hbr ih =>
    have h1 : splitlines (c :: cs) = [] :: splitlines cs := by
      rw [splitlines]
      · rw [if_pos hbr]
      · exact hcrlf
    by_cases hx : cs = [] ∧ c = '\r' ∧ x.head? = some '\n'
    · obtain ⟨rfl, rfl, hx⟩ := hx
      obtain ⟨y, rfl⟩ := List.head?_eq_some_iff.mp hx
      exact Or.inr ⟨y, rfl, by rw [h1, List.cons_append, List.nil_append, splitlines]; rfl⟩
    have h2 : splitlines (c :: (cs ++ x)) = [] :: splitlines (cs ++ x) := by
      rw [splitlines]
      · rw [if_pos hbr]
      · rintro ds rfl hds
        cases cs with
        | nil => exact hx ⟨rfl, rfl, by rw [show x = '\n' :: ds from hds]; rfl⟩
        | cons d es =>
          obtain ⟨rfl, -⟩ := List.cons.inj hds
          exact hcrlf es rfl rfl
    rw [List.cons_append, h1, h2, List.cons_append]
    cases cs with
    | nil => exact Or.inl rfl
    | cons d ds =>
      rcases ih fun e he => hb e (by simpa using he) with h | ⟨y, hy, h⟩
      · exact Or.inl (by rw [h])
      · exact Or.inr ⟨y, hy, by rw [h]; rfl⟩
  | case4 c cs hcrlf hbr ih =>
    have hbr' : isLineBreak c = false := by simpa using hbr
    cases cs with
    | nil => exact absurd (hb c rfl) hbr
    | cons d ds =>
      have hne : splitlines (d :: ds) ≠ [] := by
        rw [splitlines.eq_def]
        split
        · simp_all
        · simp
        · split
          · simp
          · cases splitlines _ <;> simp [consHead]
      obtain ⟨l, ls, hl⟩ := List.exists_cons_of_ne_nil hne
      rw [List.cons_append, splitlines_cons hbr', splitlines_cons hbr']
      rcases ih fun e he => hb e (by simpa using he) with h | ⟨y, hy, h⟩
      · exact Or.inl (by rw [h, hl]; rfl)
      · exact Or.inr ⟨y, hy, by rw [h, hl]; rfl⟩

/-- Closed lines do not change when something is appended that does not begin with `'\n'` (which
could complete a `'\r'`). -/
theorem splitlines_append_of_closed {b : Text} (hb : ∀ c, b.getLast? = some c → isLineBreak c = true)
    {x : Text} (hx : x.head? ≠ some '\n') : splitlines (b ++ x) = splitlines b ++ splitlines x := by
  rcases splitlines_append_closed hb x with h | ⟨y, rfl, -⟩
  · exact h
  · exact absurd rfl hx

/-- Closed lines stay, whatever is appended. -/
theorem exists_splitlines_append {b : Text} (hb : openLine b = []) (x : Text) :
    ∃ tail, splitlines (b ++ x) = splitlines b ++ tail := by
  have hclosed : closedPart b = b := by
    conv_rhs => rw [← closedPart_append_openLine b, hb, List.append_nil]
  have hlast := closedPart_last (t := b)
  rw [hclosed] at hlast
  rcases splitlines_append_closed hlast x with h | ⟨y, -, h⟩
  · exact ⟨_, h⟩
  · exact ⟨_, h⟩

/-- The lines of a text: the closed ones, and the open one unless it is empty. -/
theorem splitlines_eq_closed (t : Text) :
    splitlines t = splitlines (closedPart t) ++ splitlines (openLine t) := by
  conv_lhs => rw [← closedPart_append_openLine t]
  refine splitlines_append_of_closed closedPart_last fun h => ?_
  exact absurd (oneLine_openLine t _ (List.mem_of_head? h)) (by decide)

/-- **Appending a line**: it continues the open line, and the closed lines stay. -/
theorem splitlines_append_line (t : Text) {r : Text} (hr : OneLine r) (hne : r ≠ []) (rest : Text) :
    splitlines (t ++ (r ++ '\n' :: rest)) =
      splitlines (closedPart t) ++ (openLine t ++ r) :: splitlines rest := by
  have hone : OneLine (openLine t ++ r) := fun c hc => by
    rcases List.mem_append.mp hc with hc | hc
    · exact oneLine_openLine t c hc
    · exact hr c hc
  conv_lhs => rw [← closedPart_append_openLine t, List.append_assoc]
  rw [splitlines_append_of_closed closedPart_last, ← List.append_assoc,
    splitlines_append_newline hone]
  intro h
  rw [← List.append_assoc, List.head?_append_of_ne_nil _ (by simp [hne])] at h
  exact absurd (hone _ (List.mem_of_head? h)) (by decide)

end LabInABox.Text
