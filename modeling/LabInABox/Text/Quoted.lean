import LabInABox.Text.Fields
import Mathlib.Data.List.Infix

/-!
# What a text holds in quotes

General facts about texts that are cut at every quote.

* `pieces` are what stands between the quotes, the first and the last piece too. `behind p` are the pieces that are
  closed and follow one that ends in `p`.

Results:
* `mem_behind_iff`: they are what is found by looking for `p` and the quoted text.
* `count_behind_append`: how many times a text that is appended holds one, and the text before it did.
-/

namespace LabInABox.Text

/-- The pieces between the quotes. -/
def pieces (q : Char) : Text → List Text
  | [] => [[]]
  | c :: cs => if c = q then [] :: pieces q cs else consHead c (pieces q cs)

/-- The first piece, if another follows. -/
def closedHead : List Text → List Text
  | w :: _ :: _ => [w]
  | _ => []

/-- The closed pieces that follow a piece that ends in `p`. -/
def behind (p : Text) : List Text → List Text
  | [] => []
  | s :: l => (if p <:+ s then closedHead l else []) ++ behind p l

variable {q : Char} {p s t u w l m : Text} {xs ys : List Text}

/-! ## Pieces -/

theorem pieces_ne_nil (t : Text) : pieces q t ≠ [] := by
  cases t with
  | nil => exact List.cons_ne_nil _ _
  | cons c cs =>
    unfold pieces
    split
    · exact List.cons_ne_nil _ _
    · cases pieces q cs with
      | nil => exact List.cons_ne_nil _ _
      | cons => exact List.cons_ne_nil _ _

theorem pieces_cons_of_ne {c : Char} (h : c ≠ q) (cs : Text) : pieces q (c :: cs) = consHead c (pieces q cs) :=
  if_neg h

theorem pieces_of_not_mem (h : q ∉ t) : pieces q t = [t] := by
  induction t with
  | nil => rfl
  | cons c cs ih =>
    have hne : c ≠ q := fun e => h (e ▸ List.mem_cons_self)
    rw [pieces_cons_of_ne hne, ih fun hm => h (List.mem_cons_of_mem _ hm)]
    rfl

theorem pieces_append_cons (h : q ∉ s) (t : Text) : pieces q (s ++ q :: t) = s :: pieces q t := by
  induction s with
  | nil => exact if_pos rfl
  | cons c cs ih =>
    have hne : c ≠ q := fun e => h (e ▸ List.mem_cons_self)
    rw [List.cons_append, pieces_cons_of_ne hne, ih fun hm => h (List.mem_cons_of_mem _ hm)]
    rfl

/-- The last piece goes on in what is appended. -/
theorem exists_pieces_append (t : Text) : ∃ xs l, pieces q t = xs ++ [l] ∧
    ∀ {u m ys}, pieces q u = m :: ys → pieces q (t ++ u) = xs ++ (l ++ m) :: ys := by
  induction t with
  | nil => exact ⟨[], [], rfl, fun hu => hu⟩
  | cons c cs ih =>
    obtain ⟨xs, l, hcs, happend⟩ := ih
    by_cases hc : c = q
    · subst hc
      refine ⟨[] :: xs, l, ?_, fun hu => ?_⟩
      · rw [pieces, if_pos rfl, hcs]
        rfl
      · rw [List.cons_append, pieces, if_pos rfl, happend hu]
        rfl
    · cases xs with
      | nil =>
        refine ⟨[], c :: l, ?_, fun hu => ?_⟩
        · rw [pieces_cons_of_ne hc, hcs]
          rfl
        · rw [List.cons_append, pieces_cons_of_ne hc, happend hu]
          rfl
      | cons x xs =>
        refine ⟨(c :: x) :: xs, l, ?_, fun hu => ?_⟩
        · rw [pieces_cons_of_ne hc, hcs]
          rfl
        · rw [List.cons_append, pieces_cons_of_ne hc, happend hu]
          rfl

/-! ## Finding a quoted text -/

theorem mem_closedHead_iff (hw : q ∉ w) : w ∈ closedHead (pieces q t) ↔ w ++ [q] <+: t := by
  constructor
  · intro hmem
    by_cases ht : q ∈ t
    · obtain ⟨s, t', rfl, hs⟩ := List.eq_append_cons_of_mem ht
      rw [pieces_append_cons hs] at hmem
      cases hp : pieces q t' with
      | nil => exact absurd hp (pieces_ne_nil t')
      | cons r rest =>
        rw [hp] at hmem
        obtain rfl := List.mem_singleton.mp hmem
        exact ⟨t', by simp⟩
    · rw [pieces_of_not_mem ht] at hmem
      cases hmem
  · rintro ⟨t', rfl⟩
    rw [List.append_assoc, List.singleton_append, pieces_append_cons hw]
    cases hp : pieces q t' with
    | nil => exact absurd hp (pieces_ne_nil t')
    | cons r rest => exact List.mem_cons_self

/-- A needle with a quote begins at the first quote of a text or lies behind it. -/
theorem infix_append_quote_iff (hp : q ∉ p) (hs : q ∉ s) (x : Text) :
    p ++ q :: x <:+: s ++ q :: t ↔ p <:+ s ∧ x <+: t ∨ p ++ q :: x <:+: t := by
  constructor
  · rintro ⟨a, b, h⟩
    have h' : (a ++ p) ++ q :: (x ++ b) = s ++ q :: t := by
      rw [← h]
      simp
    rcases List.append_eq_append_iff.mp h' with ⟨z, rfl, hz⟩ | ⟨z, hz, ht⟩
    · cases z with
      | nil => exact Or.inl ⟨⟨a, (List.append_nil _).symm⟩, b, (List.cons.inj hz).2⟩
      | cons d z =>
        obtain ⟨rfl, -⟩ := List.cons.inj hz
        exact absurd (List.mem_append_right _ List.mem_cons_self) hs
    · cases z with
      | nil =>
        rw [List.append_nil] at hz
        exact Or.inl ⟨⟨a, hz⟩, b, (List.cons.inj ht).2.symm⟩
      | cons d z =>
        obtain ⟨rfl, rfl⟩ := List.cons.inj ht
        -- the needle begins behind the quote, as its own first quote is not in `p`
        rcases List.append_eq_append_iff.mp hz with ⟨y, rfl, rfl⟩ | ⟨y, rfl, hy⟩
        · exact absurd (List.mem_append_right _ List.mem_cons_self) hp
        · cases y with
          | nil =>
            obtain rfl : q :: z = p := hy
            exact absurd List.mem_cons_self hp
          | cons e y =>
            obtain ⟨-, rfl⟩ := List.cons.inj hy
            exact Or.inr ⟨y, b, by simp⟩
  · rintro (⟨⟨a, rfl⟩, b, rfl⟩ | ⟨a, b, rfl⟩)
    · exact ⟨a, b, by simp⟩
    · exact ⟨s ++ q :: a, b, by simp⟩

/-- **What is found** by looking for `p` and the quoted text. -/
theorem mem_behind_iff {p w : Text} (hp : q ∉ p) (hw : q ∉ w) (t : Text) :
    w ∈ behind p (pieces q t) ↔ p ++ q :: (w ++ [q]) <:+: t := by
  by_cases ht : q ∈ t
  · obtain ⟨s, t', rfl, hs⟩ := List.eq_append_cons_of_mem ht
    have hlt : t'.length < (s ++ q :: t').length := by simp; omega
    rw [pieces_append_cons hs, behind, List.mem_append, infix_append_quote_iff hp hs, ← mem_behind_iff hp hw t']
    refine or_congr_left ?_
    split
    · rename_i hps
      rw [mem_closedHead_iff hw]
      exact ⟨fun h => ⟨hps, h⟩, And.right⟩
    · rename_i hps
      exact ⟨fun h => absurd h List.not_mem_nil, fun h => absurd h.1 hps⟩
  · rw [pieces_of_not_mem ht]
    constructor
    · intro hmem
      rw [behind] at hmem
      split at hmem
      · cases hmem
      · cases hmem
    · rintro ⟨a, b, rfl⟩
      exact absurd (by simp) ht
termination_by t.length

theorem behind_cons_of_suffix (h : p <:+ s) (w u : Text) (xs : List Text) :
    behind p (s :: w :: u :: xs) = w :: behind p (w :: u :: xs) := by
  rw [behind, if_pos h]
  rfl

theorem behind_cons_of_not_suffix (h : ¬ p <:+ s) (xs : List Text) : behind p (s :: xs) = behind p xs := by
  rw [behind, if_neg h, List.nil_append]

theorem behind_pair (p s w : Text) : behind p [s, w] = [] := by
  rw [behind, behind, behind]
  split
  · split
    · rfl
    · rfl
  · split
    · rfl
    · rfl

/-! ## Counting -/

/-- **What is appended** adds what it holds, when the piece it closes is no such text. -/
theorem count_behind_append (hw : w ≠ l ++ m) : ∀ xs : List Text,
    (behind p (xs ++ (l ++ m) :: ys)).count w =
      (behind p (xs ++ [l])).count w + (behind p ((l ++ m) :: ys)).count w
  | [] => by
    have hnil : behind p ([] ++ [l]) = [] := by
      rw [List.nil_append, behind]
      split
      · rfl
      · rfl
    rw [hnil]
    exact (Nat.zero_add _).symm
  | x :: xs => by
    have hhead : (closedHead (xs ++ (l ++ m) :: ys)).count w = (closedHead (xs ++ [l])).count w := by
      match xs, ys with
      | [], [] => rfl
      | [], y :: ys => exact List.count_eq_zero.mpr fun hm => hw (List.mem_singleton.mp hm)
      | [x'], _ => rfl
      | x' :: x'' :: xs, _ => rfl
    rw [List.cons_append, List.cons_append, behind, behind, List.count_append, List.count_append,
      count_behind_append hw xs, ← Nat.add_assoc]
    congr 2
    split
    · exact hhead
    · rfl

end LabInABox.Text
