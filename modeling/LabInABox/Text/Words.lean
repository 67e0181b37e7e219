import LabInABox.Text.Matcher

/-!
# A text that reads as words

Tools that take something out of a text leave blanks behind. `Reads t ws` says that `t` is the words
`ws`, with a blank between them, and perhaps blanks at the ends:

* `lead ws` is the words, each after a blank; in front of them the blank may be missing, as in `join`.
* A needle without blanks lies in one of the words (`Reads.infix_iff`).
* `Reads.split` cuts out some of the words, and what is left reads as the others.

Results:
* `firstMatch_words`, `deleteMatches_words`: a pattern that begins with a needle is searched for, and
  deleted, where the needle stands.
* `Reads.strip_eq`: stripped, the text is the joined words.
-/

namespace LabInABox.Text

/-- The words, each after a blank. -/
def lead (ws : List Text) : Text := ws.flatMap (' ' :: ·)

/-- A text of blanks. -/
def Blank (b : Text) : Prop := ∀ c ∈ b, isSpace c = true

/-- The words with a blank between them, and perhaps one in front. -/
def Starts (t : Text) (ws : List Text) : Prop := t = lead ws ∨ t = join ws

/-- The words with a blank between them, and perhaps blanks at the ends. -/
def Reads (t : Text) (ws : List Text) : Prop := ∃ s b, Starts s ws ∧ Blank b ∧ t = s ++ b

variable {r t u z b : Text} {us vs ws : List Text}

theorem blank_nil : Blank [] := fun _ hc => absurd hc List.not_mem_nil

theorem blank_space : Blank [' '] := fun c hc => by rw [List.mem_singleton.mp hc]; exact isSpace_space

@[simp] theorem lead_nil : lead [] = [] := rfl

theorem lead_cons (w : Text) (ws : List Text) : lead (w :: ws) = ' ' :: w ++ lead ws := List.flatMap_cons

theorem lead_append (us ws : List Text) : lead (us ++ ws) = lead us ++ lead ws := List.flatMap_append

theorem join_cons : ∀ (w : Text) (ws : List Text), join (w :: ws) = w ++ lead ws
  | w, [] => by rw [join_singleton, lead_nil, List.append_nil]
  | w, v :: ws => by rw [join_cons_cons, join_cons v ws, lead_cons]; rfl

theorem lead_eq_cons_join (hne : ws ≠ []) : lead ws = ' ' :: join ws := by
  cases ws with
  | nil => exact absurd rfl hne
  | cons w ws => rw [lead_cons, join_cons]; rfl

theorem join_append (hne : us ≠ []) (ws : List Text) : join (us ++ ws) = join us ++ lead ws := by
  cases us with
  | nil => exact absurd rfl hne
  | cons u us => rw [List.cons_append, join_cons, join_cons, lead_append, List.append_assoc]

/-! ## Needles -/

/-- What stands before a blank, or at the end. -/
def Apart (z : Text) : Prop := z = [] ∨ ∃ c z', z = c :: z' ∧ isSpace c = true

theorem apart_lead (ws : List Text) (hb : Blank b) : Apart (lead ws ++ b) := by
  cases ws with
  | nil =>
    cases b with
    | nil => exact Or.inl rfl
    | cons c b => exact Or.inr ⟨c, b, rfl, hb c List.mem_cons_self⟩
  | cons w ws => exact Or.inr ⟨' ', w ++ lead ws ++ b, by rw [lead_cons]; rfl, isSpace_space⟩

/-- A needle without blanks. -/
structure Needle (r : Text) : Prop where
  ne_nil : r ≠ []
  noSpace : ∀ c ∈ r, isSpace c = false

theorem Needle.not_mem (h : Needle r) {c : Char} (hc : isSpace c = true) : c ∉ r := fun hm => by
  rw [h.noSpace c hm] at hc
  exact Bool.false_ne_true hc

theorem Needle.infix_append (h : Needle r) (w : Text) (hz : Apart z) :
    r <:+: w ++ z ↔ r <:+: w ∨ r <:+: z := by
  rcases hz with rfl | ⟨c, z, rfl, hc⟩
  · rw [List.append_nil, List.infix_nil]
    exact ⟨Or.inl, fun hr => hr.resolve_right h.ne_nil⟩
  · have hz := infix_append_cons_iff (h.not_mem hc) [] z
    rw [List.nil_append, List.infix_nil] at hz
    rw [infix_append_cons_iff (h.not_mem hc), hz]
    exact or_congr_right ⟨Or.inr, fun hr => hr.resolve_left h.ne_nil⟩

theorem Needle.not_infix_blank (h : Needle r) (hb : Blank b) : ¬ r <:+: b := fun hr => by
  obtain ⟨c, hc⟩ := List.exists_mem_of_ne_nil r h.ne_nil
  exact h.not_mem (hb c (hr.subset hc)) hc

theorem Needle.infix_lead (h : Needle r) (hb : Blank b) :
    r <:+: lead ws ++ b ↔ ∃ w ∈ ws, r <:+: w := by
  induction ws with
  | nil =>
    refine ⟨fun hr => absurd hr (h.not_infix_blank hb), fun ⟨w, hw, _⟩ => absurd hw List.not_mem_nil⟩
  | cons w ws ih =>
    have hspace := infix_append_cons_iff (h.not_mem isSpace_space) [] (w ++ (lead ws ++ b))
    rw [List.nil_append, List.infix_nil] at hspace
    rw [lead_cons, List.cons_append, List.cons_append, List.append_assoc, hspace,
      h.infix_append w (apart_lead ws hb), ih, List.exists_mem_cons_iff]
    exact ⟨fun hr => hr.resolve_left h.ne_nil, Or.inr⟩

theorem Starts.infix_iff (hs : Starts t ws) (h : Needle r) (hb : Blank b) :
    r <:+: t ++ b ↔ ∃ w ∈ ws, r <:+: w := by
  rcases hs with rfl | rfl
  · exact h.infix_lead hb
  · cases ws with
    | nil =>
      rw [join_nil, ← lead_nil]
      exact h.infix_lead hb
    | cons w ws =>
      rw [join_cons, List.append_assoc, h.infix_append w (apart_lead ws hb), h.infix_lead hb,
        List.exists_mem_cons_iff]

/-- **A needle without blanks lies in one of the words.** -/
theorem Reads.infix_iff (ht : Reads t ws) (h : Needle r) : r <:+: t ↔ ∃ w ∈ ws, r <:+: w := by
  obtain ⟨s, b, hs, hb, rfl⟩ := ht
  exact hs.infix_iff h hb

theorem Starts.not_isInfix (hs : Starts t ws) (h : Needle r) (hw : ∀ w ∈ ws, ¬ r <:+: w) :
    ¬ r <:+: t := fun hr => by
  have hiff := hs.infix_iff h blank_nil
  rw [List.append_nil] at hiff
  obtain ⟨w, hmem, hrw⟩ := hiff.mp hr
  exact hw w hmem hrw

/-! ## Cutting words out -/

theorem Starts.append_lead (hs : Starts u us) (ws : List Text) : Starts (u ++ lead ws) (us ++ ws) := by
  rcases hs with rfl | rfl
  · exact Or.inl (lead_append us ws).symm
  · cases us with
    | nil => exact Or.inl rfl
    | cons v us => exact Or.inr (join_append (List.cons_ne_nil v us) ws).symm

/-- Some words of a text: what stands before them, the blank in front, and what comes after them. -/
structure Cut (t : Text) (us vs ws : List Text) (u g z : Text) : Prop where
  text : t = u ++ (g ++ (join vs ++ z))
  gap : g = [' '] ∨ g = [] ∧ us = []
  before : Starts u us
  after : ∃ b, Blank b ∧ z = lead ws ++ b

/-- **Some of the words are cut out.** -/
theorem Reads.split (hv : vs ≠ []) (h : Reads t (us ++ (vs ++ ws))) : ∃ u g z, Cut t us vs ws u g z := by
  obtain ⟨s, b, hs, hb, rfl⟩ := h
  have hspace : ∀ u, u ++ lead (vs ++ ws) ++ b = u ++ ([' '] ++ (join vs ++ (lead ws ++ b))) := fun u => by
    rw [lead_append, lead_eq_cons_join hv]
    simp
  rcases hs with rfl | rfl
  · refine ⟨lead us, [' '], lead ws ++ b, ?_, Or.inl rfl, Or.inl rfl, b, hb, rfl⟩
    rw [lead_append, hspace]
  · cases us with
    | nil =>
      refine ⟨[], [], lead ws ++ b, ?_, Or.inr ⟨rfl, rfl⟩, Or.inl rfl, b, hb, rfl⟩
      rw [List.nil_append, join_append hv, List.append_assoc]
      rfl
    | cons v us =>
      refine ⟨join (v :: us), [' '], lead ws ++ b, ?_, Or.inl rfl, Or.inr rfl, b, hb, rfl⟩
      rw [join_append (List.cons_ne_nil v us), hspace]

theorem Cut.reads {g : Text} (h : Cut t us vs ws u g z) : Reads (u ++ z) (us ++ ws) := by
  obtain ⟨b, hb, rfl⟩ := h.after
  exact ⟨u ++ lead ws, b, h.before.append_lead ws, hb, by rw [List.append_assoc]⟩

theorem Cut.nil_of_gap {g : Text} (h : Cut t us vs ws u g z) (hg : g = []) : u = [] := by
  rcases h.gap with rfl | ⟨-, rfl⟩
  · exact absurd hg (List.cons_ne_nil _ _)
  · exact h.before.elim id id

theorem Cut.blank_gap {g : Text} (h : Cut t us vs ws u g z) : Blank g := by
  rcases h.gap with rfl | ⟨rfl, -⟩
  · exact blank_space
  · exact blank_nil

theorem Cut.nil_or_gap {g : Text} (h : Cut t us vs ws u g z) : g = [' '] ∨ g = [] ∧ u = [] :=
  h.gap.imp_right fun hg => ⟨hg.1, h.nil_of_gap hg.1⟩

/-- What is left when the blanks behind the words go with them. -/
theorem Cut.reads_dropWhile {g : Text} (h : Cut t us vs ws u g z) (hws : ∀ w ∈ ws, IsField isSpace w) :
    Reads (u ++ (g ++ z.dropWhile isSpace)) (us ++ ws) := by
  obtain ⟨b, hb, rfl⟩ := h.after
  cases ws with
  | nil =>
    have hz : (lead [] ++ b).dropWhile isSpace = [] := List.dropWhile_eq_nil_iff.mpr hb
    rw [hz, List.append_nil, List.append_nil]
    exact ⟨u, g, h.before, h.blank_gap, rfl⟩
  | cons w ws =>
    obtain ⟨hne, hall⟩ := hws w List.mem_cons_self
    obtain ⟨c, cs, rfl⟩ := List.exists_cons_of_ne_nil hne
    have hz : (lead ((c :: cs) :: ws) ++ b).dropWhile isSpace = join ((c :: cs) :: ws) ++ b := by
      rw [lead_eq_cons_join (List.cons_ne_nil _ _), List.cons_append,
        List.dropWhile_cons_of_pos isSpace_space, join_cons, List.cons_append, List.cons_append,
        List.dropWhile_cons_of_neg (by rw [hall c List.mem_cons_self]; exact Bool.false_ne_true)]
    rw [hz]
    rcases h.gap with rfl | ⟨rfl, rfl⟩
    · refine ⟨u ++ lead ((c :: cs) :: ws), b, h.before.append_lead _, hb, ?_⟩
      rw [lead_eq_cons_join (List.cons_ne_nil _ _)]
      simp
    · rw [h.nil_of_gap rfl]
      exact ⟨join ((c :: cs) :: ws), b, Or.inr rfl, hb, rfl⟩

/-! ## Searching and deleting -/

section Search

variable {α : Type*} {m : Text → Option α} {d : Text → Option Nat} {g y : Text}

theorem Needle.not_prefix_before (h : Needle r) (hu : ¬ r <:+: u) {s : Text} (hs : s <:+ u)
    (hne : s ≠ []) (hg : g = [' '] ∨ g = [] ∧ u = []) : ¬ r <+: s ++ (g ++ y) := by
  rcases hg with rfl | ⟨-, rfl⟩
  · exact not_opener_before_blank h.noSpace isSpace_space hu hs y
  · exact absurd (List.suffix_nil.mp hs) hne

/-- **A pattern that begins with a needle is searched for where the needle stands.** -/
theorem firstMatch_words (h : Needle r) (hm : ∀ s, ¬ r <+: s → m s = none) (hu : ¬ r <:+: u)
    (hg : g = [' '] ∨ g = [] ∧ u = []) : firstMatch m (u ++ (g ++ y)) = firstMatch m y := by
  rw [firstMatch_append fun s hne hs => hm _ (h.not_prefix_before hu hs hne hg)]
  refine firstMatch_append fun s hne hs => hm _ ?_
  rcases hg with rfl | ⟨rfl, -⟩
  · obtain rfl : s = [' '] := by
      rcases List.suffix_cons_iff.mp hs with hs | hs
      · exact hs
      · exact absurd (List.suffix_nil.mp hs) hne
    exact not_opener_of_blank h.ne_nil h.noSpace isSpace_space y
  · exact absurd (List.suffix_nil.mp hs) hne

/-- A text of words ends with no blank. -/
theorem dropWhile_suffix_ne (hs : Starts u us) (hus : ∀ w ∈ us, IsField isSpace w) {s : Text}
    (hsu : s <:+ u) (hne : s ≠ []) : s.dropWhile isSpace ≠ [] := by
  intro hblank
  have hlast : ∀ c, u.getLast? = some c → isSpace c = false := by
    intro c hc
    have hus' : us ≠ [] := by
      rintro rfl
      rcases hs with rfl | rfl <;> exact absurd hc (by simp)
    have hentry := isEntry_join hus' hus
    rcases hs with rfl | rfl
    · rw [lead_eq_cons_join hus', List.getLast?_cons_of_ne_nil hentry.ne_nil] at hc
      exact hentry.last c hc
    · exact hentry.last c hc
  obtain ⟨v, rfl⟩ := hsu
  rw [List.getLast?_append_of_ne_nil _ hne, List.getLast?_eq_some_getLast hne] at hlast
  have hc := hlast _ rfl
  rw [List.dropWhile_eq_nil_iff.mp hblank _ (List.getLast_mem hne)] at hc
  exact Bool.false_ne_true hc.symm

/-- **It is deleted there, with the blanks in front of it.** -/
theorem deleteMatches_words (h : Needle r) (hd : ∀ s, ¬ r <+: s.dropWhile isSpace → d s = none)
    (hus : ∀ w ∈ us, IsField isSpace w) (hc : Cut t us vs ws u g z) (hu : ¬ r <:+: u)
    (hz : ¬ r <:+: z) (hv : join vs ≠ [])
    (hmatch : d (g ++ (join vs ++ z)) = some (g ++ join vs).length) :
    deleteMatches d 0 t = u ++ z := by
  rw [hc.text, deleteMatches_append, ← List.append_assoc, deleteMatches_match, deleteMatches_eq_self]
  · exact fun s _ hs => hd s fun hr => hz (hr.isInfix.trans ((List.dropWhile_suffix _).trans hs).isInfix)
  · exact List.append_ne_nil_of_right_ne_nil _ hv
  · rw [List.append_assoc]
    exact hmatch
  · intro s hne hs
    have hne' := dropWhile_suffix_ne hc.before hus hs hne
    have hdrop : (s ++ (g ++ (join vs ++ z))).dropWhile isSpace =
        s.dropWhile isSpace ++ (g ++ (join vs ++ z)) := by
      rw [List.dropWhile_append, if_neg (by rwa [List.isEmpty_iff])]
    refine hd _ ?_
    rw [hdrop]
    exact h.not_prefix_before hu ((List.dropWhile_suffix _).trans hs) hne' hc.nil_or_gap

end Search

/-! ## Lines and stripping -/

theorem OneLine.append {t u : Text} (ht : OneLine t) (hu : OneLine u) : OneLine (t ++ u) := fun c hc =>
  (List.mem_append.mp hc).elim (ht c) (hu c)

theorem OneLine.cons {c : Char} {t : Text} (hc : isLineBreak c = false) (ht : OneLine t) : OneLine (c :: t) :=
  fun d hd => by
    rcases List.mem_cons.mp hd with rfl | hd
    · exact hc
    · exact ht d hd

theorem strip_cons_blank {c : Char} (hc : isSpace c = true) (t : Text) : strip (c :: t) = strip t := by
  rw [strip, List.dropWhile_cons_of_pos hc]
  rfl

/-- **Stripped, the text is the joined words.** -/
theorem Reads.strip_eq (h : Reads t ws) (hws : ∀ w ∈ ws, IsField isSpace w) : strip t = join ws := by
  obtain ⟨s, b, hs, hb, rfl⟩ := h
  by_cases hne : ws = []
  · subst hne
    have hnil : s = [] := hs.elim id id
    rw [hnil, List.nil_append]
    exact strip_eq_nil_iff.mpr hb
  · have hentry := isEntry_join hne hws
    have hjoin : strip (join ws ++ b) = join ws :=
      strip_append_blank hentry.ne_nil hentry.head hentry.last hb
    rcases hs with rfl | rfl
    · rw [lead_eq_cons_join hne, List.cons_append, strip_cons_blank isSpace_space, hjoin]
    · exact hjoin

end LabInABox.Text
