import LabInABox.Text.Fields

/-!
# Splitting a line into words

Model of Python's `shlex.split`, with the rules of a POSIX shell: a word goes on until a blank outside
quotes, single quotes keep everything, and a backslash between double quotes stands before a double quote or
a backslash only.

* `scan` is the automaton, with the word read so far; `none` of it stands for no word, which is not the empty
  word. The line is `none` where a quote is not closed or a backslash is the last character.
* `Piece t u`: the part `t` of a word reads as `u`. Pieces follow one another.

Results:
* `Word.split_cons`, `Word.split_self`: a line of words with a space between them is split into what they
  read as.
-/

namespace LabInABox.Text.Shlex

/-! ## The automaton -/

/-- Where the reader stands. -/
inductive Mode
  | plain
  | single
  | double
  | escaped
  | escapedDouble

/-- A blank between words. -/
def isBlank (c : Char) : Bool := c = ' ' || c = '\t' || c = '\r' || c = '\n'

/-- The words of a line, from a mode and the word read so far. -/
def scan : Mode → Option Text → Text → Option (List Text)
  | .plain, w, [] => some w.toList
  | _, _, [] => none
  | .plain, w, c :: cs =>
    if isBlank c then (scan .plain none cs).map (w.toList ++ ·)
    else if c = '\'' then scan .single (some (w.getD [])) cs
    else if c = '"' then scan .double (some (w.getD [])) cs
    else if c = '\\' then scan .escaped (some (w.getD [])) cs
    else scan .plain (some (w.getD [] ++ [c])) cs
  | .single, w, c :: cs => if c = '\'' then scan .plain w cs else scan .single (some (w.getD [] ++ [c])) cs
  | .double, w, c :: cs =>
    if c = '"' then scan .plain w cs
    else if c = '\\' then scan .escapedDouble w cs
    else scan .double (some (w.getD [] ++ [c])) cs
  | .escaped, w, c :: cs => scan .plain (some (w.getD [] ++ [c])) cs
  | .escapedDouble, w, c :: cs =>
    scan .double (some (w.getD [] ++ if c = '"' ∨ c = '\\' then [c] else ['\\', c])) cs

/-- `shlex.split(line)`, `none` where it raises. -/
def split (line : Text) : Option (List Text) := scan .plain none line

/-! ## Parts of a word -/

/-- The part `t` of a word reads as `u`. -/
def Piece (t u : Text) : Prop :=
  ∀ w rest, scan .plain (some w) (t ++ rest) = scan .plain (some (w ++ u)) rest

/-- The part `t` of a word, between double quotes, reads as `u`. -/
def QuotedPiece (t u : Text) : Prop :=
  ∀ w rest, scan .double (some w) (t ++ rest) = scan .double (some (w ++ u)) rest

/-- A character that stands for itself outside quotes. -/
def isPlain (c : Char) : Bool := !isBlank c && c ≠ '\'' && c ≠ '"' && c ≠ '\\'

variable {t t' u u' : Text}

theorem Piece.nil : Piece [] [] := fun w rest => by rw [List.append_nil, List.nil_append]

theorem Piece.append (h : Piece t u) (h' : Piece t' u') : Piece (t ++ t') (u ++ u') := fun w rest => by
  rw [List.append_assoc, h, h', List.append_assoc]

theorem QuotedPiece.nil : QuotedPiece [] [] := fun w rest => by rw [List.append_nil, List.nil_append]

theorem QuotedPiece.append (h : QuotedPiece t u) (h' : QuotedPiece t' u') :
    QuotedPiece (t ++ t') (u ++ u') := fun w rest => by
  rw [List.append_assoc, h, h', List.append_assoc]

theorem QuotedPiece.flatMap {f g : Char → Text} {s : Text} (h : ∀ c ∈ s, QuotedPiece (f c) (g c)) :
    QuotedPiece (s.flatMap f) (s.flatMap g) := by
  induction s with
  | nil => exact .nil
  | cons c s ih =>
    rw [List.flatMap_cons, List.flatMap_cons]
    exact (h c List.mem_cons_self).append (ih fun x hx => h x (List.mem_cons_of_mem c hx))

theorem Piece.flatMap {f g : Char → Text} {s : Text} (h : ∀ c ∈ s, Piece (f c) (g c)) :
    Piece (s.flatMap f) (s.flatMap g) := by
  induction s with
  | nil => exact .nil
  | cons c s ih =>
    rw [List.flatMap_cons, List.flatMap_cons]
    exact (h c List.mem_cons_self).append (ih fun x hx => h x (List.mem_cons_of_mem c hx))

/-- A plain character stands for itself. -/
theorem Piece.char {c : Char} (hc : isPlain c = true) : Piece [c] [c] := by
  intro w rest
  simp only [isPlain, Bool.and_eq_true, Bool.not_eq_true', decide_eq_true_eq] at hc
  obtain ⟨⟨⟨hb, hs⟩, hd⟩, he⟩ := hc
  simp [scan, hb, hs, hd, he]

/-- Plain characters stand for themselves. -/
theorem Piece.plain (ht : ∀ c ∈ t, isPlain c = true) : Piece t t := by
  have h := Piece.flatMap (f := fun c => [c]) (g := fun c => [c]) fun c hc => Piece.char (ht c hc)
  simpa using h

/-- Single quotes keep everything. -/
theorem Piece.single (ht : '\'' ∉ t) : Piece ('\'' :: (t ++ ['\''])) t := by
  intro w rest
  have hgo : ∀ w, scan .single (some w) (t ++ '\'' :: rest) = scan .plain (some (w ++ t)) rest := by
    induction t with
    | nil => intro w; simp [scan]
    | cons c t ih =>
      intro w
      have hc : c ≠ '\'' := fun e => ht (e ▸ List.mem_cons_self)
      rw [List.cons_append, scan, if_neg hc, ih (fun h => ht (List.mem_cons_of_mem c h)) _]
      simp
  have hopen : scan .plain (some w) ('\'' :: (t ++ '\'' :: rest)) = scan .single (some w) (t ++ '\'' :: rest) := rfl
  rw [List.cons_append, List.append_assoc, List.singleton_append, hopen, hgo]

/-- A part between double quotes is a part of the word. -/
theorem QuotedPiece.close (h : QuotedPiece t u) : Piece ('"' :: (t ++ ['"'])) u := by
  intro w rest
  have hopen : scan .plain (some w) ('"' :: (t ++ '"' :: rest)) = scan .double (some w) (t ++ '"' :: rest) := rfl
  have hclose : ∀ w, scan .double (some w) ('"' :: rest) = scan .plain (some w) rest := fun _ => rfl
  rw [List.cons_append, List.append_assoc, List.singleton_append, hopen, h, hclose]

/-- A character between double quotes stands for itself. -/
theorem QuotedPiece.char {c : Char} (hd : c ≠ '"') (he : c ≠ '\\') : QuotedPiece [c] [c] := fun w rest => by
  simp [scan, hd, he]

theorem QuotedPiece.plain (hd : '"' ∉ t) (he : '\\' ∉ t) : QuotedPiece t t := by
  have h := QuotedPiece.flatMap (f := fun c => [c]) (g := fun c => [c]) (s := t) fun c hc =>
    QuotedPiece.char (fun e => hd (e ▸ hc)) fun e => he (e ▸ hc)
  simpa using h

/-- A backslash between double quotes escapes a double quote and a backslash. -/
theorem QuotedPiece.escape {c : Char} (hc : c = '"' ∨ c = '\\') : QuotedPiece ['\\', c] [c] := fun w rest => by
  rcases hc with rfl | rfl <;> rfl

/-- Before any other character it stands for itself. -/
theorem QuotedPiece.backslash {c : Char} (hd : c ≠ '"') (he : c ≠ '\\') : QuotedPiece ['\\', c] ['\\', c] :=
  fun w rest => by simp [scan, hd, he]

/-! ## Words -/

/-- The word `t` reads as `u`. -/
structure Word (t u : Text) : Prop where
  piece : Piece t u
  starts : ∃ c cs, t = c :: cs ∧ isBlank c = false

theorem Word.scan_none (h : Word t u) (rest : Text) :
    scan .plain none (t ++ rest) = scan .plain (some u) rest := by
  obtain ⟨c, cs, rfl, hc⟩ := h.starts
  have hstart : scan .plain none ((c :: cs) ++ rest) = scan .plain (some []) ((c :: cs) ++ rest) := by
    simp [scan, hc]
  rw [hstart, h.piece, List.nil_append]

/-- The first word of a line. -/
theorem Word.split_cons (h : Word t u) (rest : Text) : split (t ++ ' ' :: rest) = (split rest).map (u :: ·) := by
  have hblank : scan .plain (some u) (' ' :: rest) = (split rest).map ([u] ++ ·) := rfl
  rw [split, h.scan_none, hblank]
  rfl

/-- The last word of a line. -/
theorem Word.split_self (h : Word t u) : split t = some [u] := by
  have hend := h.scan_none []
  rw [List.append_nil] at hend
  rw [split, hend]
  rfl

end LabInABox.Text.Shlex
