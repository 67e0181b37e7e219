import LabInABox.Text.PyJson

/-!
# Layouts of JSON texts

A value may be written with blanks between its parts, as `json.dumps(value, indent=n)` does and as an
editor leaves it.

* `Laid v t` says the text `t` is written so for the value `v`. The reader is the one of `PyJson`.
* `dumpsIndent` is the writer with an indentation, to any depth.

Results:
* `loads_laid`: a value is read back from any layout, with blanks around it.
* `laid_dumpsIndent`: what is written with an indentation is a layout.
-/

namespace LabInABox.Text.PyJson

open JsValue

variable {R : Rounding} {enc : Char → Text}

/-- Blanks. -/
def Blanks (b : Text) : Prop := ∀ c ∈ b, isBlank c = true

section Laid

variable (enc)

mutual

/-- **A layout of a value**: its parts, with blanks between them. -/
inductive Laid : JsValue (Number R) → Text → Prop
  | null : Laid null "null".toList
  | bool (b : Bool) : Laid (.bool b) (if b then "true".toList else "false".toList)
  | number (x : Number R) : Laid (number x) (numberText x)
  | text (t : Text) : Laid (text t) (quoted enc t)
  | nil {b : Text} (hb : Blanks b) : Laid (list []) ('[' :: (b ++ [']']))
  | list {b t ts : Text} {v : JsValue (Number R)} {vs : List (JsValue (Number R))} (hb : Blanks b)
      (h : Laid v t) (hs : LaidItems vs ts) : Laid (list (v :: vs)) ('[' :: (b ++ (t ++ ts)))
  | empty {b : Text} (hb : Blanks b) : Laid (mapping []) ('\x7b' :: (b ++ ['\x7d']))
  | mapping {b t ts : Text} {e : Text × JsValue (Number R)} {es : List (Text × JsValue (Number R))}
      (hb : Blanks b) (h : LaidPair e t) (hs : LaidPairs es ts) :
      Laid (mapping (e :: es)) ('\x7b' :: (b ++ (t ++ ts)))

/-- The further elements of a list, and its bracket. -/
inductive LaidItems : List (JsValue (Number R)) → Text → Prop
  | nil {b : Text} (hb : Blanks b) : LaidItems [] (b ++ [']'])
  | cons {b b' t ts : Text} {v : JsValue (Number R)} {vs : List (JsValue (Number R))} (hb : Blanks b)
      (hb' : Blanks b') (h : Laid v t) (hs : LaidItems vs ts) :
      LaidItems (v :: vs) (b ++ ',' :: (b' ++ (t ++ ts)))

/-- A pair of an object. -/
inductive LaidPair : Text × JsValue (Number R) → Text → Prop
  | mk {b b' t : Text} (k : Text) {v : JsValue (Number R)} (hb : Blanks b) (hb' : Blanks b') (h : Laid v t) :
      LaidPair (k, v) (quoted enc k ++ (b ++ ':' :: (b' ++ t)))

/-- The further pairs of an object, and its brace. -/
inductive LaidPairs : List (Text × JsValue (Number R)) → Text → Prop
  | nil {b : Text} (hb : Blanks b) : LaidPairs [] (b ++ ['\x7d'])
  | cons {b b' t ts : Text} {e : Text × JsValue (Number R)} {es : List (Text × JsValue (Number R))}
      (hb : Blanks b) (hb' : Blanks b') (h : LaidPair e t) (hs : LaidPairs es ts) :
      LaidPairs (e :: es) (b ++ ',' :: (b' ++ (t ++ ts)))

end

end Laid

/-! ## Blanks are passed over -/

theorem skip_blanks {b : Text} (hb : Blanks b) (t : Text) : skip (b ++ t) = skip t :=
  List.dropWhile_append_of_pos hb

theorem ends_blanks {b t : Text} (hb : Blanks b) (ht : Ends t) : Ends (b ++ t) := by
  intro c hc
  cases b with
  | nil => exact ht c hc
  | cons x xs =>
    obtain rfl := Option.some.inj hc
    exact Or.inr (Or.inr (Or.inr (hb x List.mem_cons_self)))

/-- How a layout begins. -/
theorem Laid.exists_cons {v : JsValue (Number R)} {t : Text} (h : Laid enc v t) :
    ∃ c cs, t = c :: cs ∧ isBlank c = false ∧ c ≠ ']' ∧ c ≠ '\x7d' := by
  cases h with
  | null => exact exists_dumpsWith_cons enc (JsValue.null : JsValue (Number R))
  | bool b => exact exists_dumpsWith_cons enc (JsValue.bool b : JsValue (Number R))
  | number x => exact exists_dumpsWith_cons enc (JsValue.number x)
  | text t => exact exists_dumpsWith_cons enc (JsValue.text t : JsValue (Number R))
  | nil hb => exact ⟨'[', _, rfl, rfl, by decide, by decide⟩
  | list hb h hs => exact ⟨'[', _, rfl, rfl, by decide, by decide⟩
  | empty hb => exact ⟨'\x7b', _, rfl, rfl, by decide, by decide⟩
  | mapping hb h hs => exact ⟨'\x7b', _, rfl, rfl, by decide, by decide⟩

theorem Laid.skip {v : JsValue (Number R)} {t : Text} (h : Laid enc v t) (rest : Text) :
    PyJson.skip (t ++ rest) = t ++ rest := by
  obtain ⟨c, cs, rfl, hb, -⟩ := h.exists_cons
  exact skip_cons hb _

theorem LaidPair.skip {e : Text × JsValue (Number R)} {t : Text} (h : LaidPair enc e t) (rest : Text) :
    PyJson.skip (t ++ rest) = t ++ rest ∧ (t ++ rest).head? = some '"' := by
  cases h with
  | mk k hb hb' h => exact ⟨rfl, rfl⟩

theorem LaidItems.ends {vs : List (JsValue (Number R))} {ts : Text} (h : LaidItems enc vs ts) (rest : Text) :
    Ends (ts ++ rest) := by
  cases h with
  | nil hb =>
    rw [List.append_assoc]
    exact ends_blanks hb fun c hc => Or.inr (Or.inl (Option.some.inj hc).symm)
  | cons hb hb' h hs =>
    rw [List.append_assoc]
    exact ends_blanks hb fun c hc => Or.inl (Option.some.inj hc).symm

theorem LaidPairs.ends {es : List (Text × JsValue (Number R))} {ts : Text} (h : LaidPairs enc es ts) (rest : Text) :
    Ends (ts ++ rest) := by
  cases h with
  | nil hb =>
    rw [List.append_assoc]
    exact ends_blanks hb fun c hc => Or.inr (Or.inr (Or.inl (Option.some.inj hc).symm))
  | cons hb hb' h hs =>
    rw [List.append_assoc]
    exact ends_blanks hb fun c hc => Or.inl (Option.some.inj hc).symm

/-! ## Layouts are read back -/

theorem readItems_bracket {b : Text} (hb : Blanks b) (n : Nat) (rest : Text) :
    readItems (n + 1) (b ++ [']'] ++ rest) = some (([] : List (JsValue (Number R))), rest) := by
  rw [readItems, List.append_assoc, skip_blanks hb]
  rfl

theorem readItems_comma {b : Text} (hb : Blanks b) (n : Nat) (r : Text) :
    readItems (n + 1) (b ++ ',' :: r) = (readValue n (skip r)).bind fun v =>
      (readItems n v.2).map fun s => ((v.1 :: s.1 : List (JsValue (Number R))), s.2) := by
  rw [readItems, skip_blanks hb]
  rfl

theorem readPairs_brace {b : Text} (hb : Blanks b) (n : Nat) (rest : Text) :
    readPairs (n + 1) (b ++ ['\x7d'] ++ rest) = some (([] : List (Text × JsValue (Number R))), rest) := by
  rw [readPairs, List.append_assoc, skip_blanks hb]
  rfl

theorem readPairs_comma {b : Text} (hb : Blanks b) (n : Nat) (r : Text) :
    readPairs (n + 1) (b ++ ',' :: r) = (readPair n (skip r)).bind fun e =>
      (readPairs n e.2).map fun s => ((e.1 :: s.1 : List (Text × JsValue (Number R))), s.2) := by
  rw [readPairs, skip_blanks hb]
  rfl

/-- A pair is read, once its value is. -/
theorem readPair_laid (henc : ∀ c, Decodes enc c) {b b' t rest : Text} {k : Text} {v : JsValue (Number R)} {n : Nat}
    (hb : Blanks b) (hb' : Blanks b') (h : Laid enc v t) (hv : readValue n (t ++ rest) = some (v, rest)) :
    readPair (n + 1) (quoted enc k ++ (b ++ ':' :: (b' ++ t)) ++ rest) = some ((k, v), rest) := by
  have htext : quoted enc k ++ (b ++ ':' :: (b' ++ t)) ++ rest =
      '"' :: (k.flatMap enc ++ '"' :: (b ++ ':' :: (b' ++ (t ++ rest)))) := by simp [quoted]
  have hcolon : skip (b ++ ':' :: (b' ++ (t ++ rest))) = ':' :: (b' ++ (t ++ rest)) := by
    rw [skip_blanks hb]
    rfl
  have hvalue : skip (b' ++ (t ++ rest)) = t ++ rest := by rw [skip_blanks hb', h.skip]
  rw [htext, readPair, readString_quoted henc, Option.bind_some]
  simp only [hcolon, hvalue, hv, Option.map_some]

mutual

/-- **A value is read from a layout**, with as many steps as the text has characters. -/
theorem readValue_laid (henc : ∀ c, Decodes enc c) : ∀ {v : JsValue (Number R)} {t : Text}, Laid enc v t →
    ∀ (n : Nat) (rest : Text), Ends rest → t.length ≤ n → readValue n (t ++ rest) = some (v, rest)
  | _, _, .null, n, rest, hr, hn => readValue_dumpsWith henc JsValue.null n rest hr hn
  | _, _, .bool b, n, rest, hr, hn => readValue_dumpsWith henc (JsValue.bool b) n rest hr hn
  | _, _, .number x, n, rest, hr, hn => readValue_dumpsWith henc (JsValue.number x) n rest hr hn
  | _, _, .text t, n, rest, hr, hn => readValue_dumpsWith henc (JsValue.text t) n rest hr hn
  | _, _, .nil hb, n, rest, _, hn => by
    obtain ⟨m, rfl⟩ : ∃ m, n = m + 1 := ⟨n - 1, by simp at hn; omega⟩
    rw [List.cons_append, readValue, List.append_assoc, skip_blanks hb]
    rfl
  | _, _, @Laid.list _ _ b t ts v vs hb h hs, n, rest, _, hn => by
    obtain ⟨m, rfl⟩ : ∃ m, n = m + 1 := ⟨n - 1, by simp at hn; omega⟩
    have hlen : t.length + ts.length ≤ m := by
      simp only [List.length_cons, List.length_append] at hn
      omega
    have hskip : skip (b ++ (t ++ ts) ++ rest) = t ++ (ts ++ rest) := by
      rw [List.append_assoc, skip_blanks hb, List.append_assoc, h.skip]
    have hhead : (skip (b ++ (t ++ ts) ++ rest)).head? ≠ some ']' := by
      obtain ⟨c, cs, rfl, -, hne, -⟩ := h.exists_cons
      rw [hskip]
      exact fun he => hne (Option.some.inj he)
    have hv := readValue_laid henc h m (ts ++ rest) (hs.ends rest) (by omega)
    have hvs := readItems_laid henc hs m rest (by omega)
    rw [List.cons_append, readValue_list m hhead, hskip, hv, Option.bind_some, hvs, Option.map_some]
  | _, _, .empty hb, n, rest, _, hn => by
    obtain ⟨m, rfl⟩ : ∃ m, n = m + 1 := ⟨n - 1, by simp at hn; omega⟩
    rw [List.cons_append, readValue, List.append_assoc, skip_blanks hb]
    rfl
  | _, _, @Laid.mapping _ _ b t ts e es hb h hs, n, rest, _, hn => by
    obtain ⟨m, rfl⟩ : ∃ m, n = m + 1 := ⟨n - 1, by simp at hn; omega⟩
    have hlen : t.length + ts.length ≤ m := by
      simp only [List.length_cons, List.length_append] at hn
      omega
    obtain ⟨hpair, hquote⟩ := h.skip (ts ++ rest)
    have hskip : skip (b ++ (t ++ ts) ++ rest) = t ++ (ts ++ rest) := by
      rw [List.append_assoc, skip_blanks hb, List.append_assoc, hpair]
    have he := readLaidPair henc h m (ts ++ rest) (hs.ends rest) (by omega)
    have hes := readPairs_laid henc hs m rest (by omega)
    rw [List.cons_append, readValue_mapping m (by rw [hskip, hquote]; decide), hskip, he, Option.bind_some, hes,
      Option.map_some]

/-- The elements behind the first one. -/
theorem readItems_laid (henc : ∀ c, Decodes enc c) : ∀ {vs : List (JsValue (Number R))} {ts : Text},
    LaidItems enc vs ts → ∀ (n : Nat) (rest : Text), ts.length ≤ n → readItems n (ts ++ rest) = some (vs, rest)
  | _, _, .nil hb, n, rest, hn => by
    obtain ⟨m, rfl⟩ : ∃ m, n = m + 1 := ⟨n - 1, by simp at hn; omega⟩
    exact readItems_bracket hb m rest
  | _, _, @LaidItems.cons _ _ b b' t ts v vs hb hb' h hs, n, rest, hn => by
    obtain ⟨m, rfl⟩ : ∃ m, n = m + 1 := ⟨n - 1, by simp at hn; omega⟩
    have hlen : t.length + ts.length ≤ m := by
      simp only [List.length_cons, List.length_append] at hn
      omega
    have htext : b ++ ',' :: (b' ++ (t ++ ts)) ++ rest = b ++ ',' :: (b' ++ (t ++ (ts ++ rest))) := by simp
    have hv := readValue_laid henc h m (ts ++ rest) (hs.ends rest) (by omega)
    have hvs := readItems_laid henc hs m rest (by omega)
    rw [htext, readItems_comma hb, skip_blanks hb', h.skip, hv, Option.bind_some, hvs, Option.map_some]

/-- A pair. -/
theorem readLaidPair (henc : ∀ c, Decodes enc c) : ∀ {e : Text × JsValue (Number R)} {t : Text},
    LaidPair enc e t → ∀ (n : Nat) (rest : Text), Ends rest → t.length ≤ n → readPair n (t ++ rest) = some (e, rest)
  | _, _, @LaidPair.mk _ _ b b' t k v hb hb' h, n, rest, hr, hn => by
    have hlen : t.length + 1 ≤ n := by
      simp only [List.length_cons, List.length_append] at hn
      omega
    obtain ⟨m, rfl⟩ : ∃ m, n = m + 1 := ⟨n - 1, by omega⟩
    exact readPair_laid henc hb hb' h (readValue_laid henc h m rest hr (by omega))

/-- The pairs behind the first one. -/
theorem readPairs_laid (henc : ∀ c, Decodes enc c) : ∀ {es : List (Text × JsValue (Number R))} {ts : Text},
    LaidPairs enc es ts → ∀ (n : Nat) (rest : Text), ts.length ≤ n → readPairs n (ts ++ rest) = some (es, rest)
  | _, _, .nil hb, n, rest, hn => by
    obtain ⟨m, rfl⟩ : ∃ m, n = m + 1 := ⟨n - 1, by simp at hn; omega⟩
    exact readPairs_brace hb m rest
  | _, _, @LaidPairs.cons _ _ b b' t ts e es hb hb' h hs, n, rest, hn => by
    obtain ⟨m, rfl⟩ : ∃ m, n = m + 1 := ⟨n - 1, by simp at hn; omega⟩
    have hlen : t.length + ts.length ≤ m := by
      simp only [List.length_cons, List.length_append] at hn
      omega
    have htext : b ++ ',' :: (b' ++ (t ++ ts)) ++ rest = b ++ ',' :: (b' ++ (t ++ (ts ++ rest))) := by simp
    obtain ⟨hpair, _⟩ := h.skip (ts ++ rest)
    have he := readLaidPair henc h m (ts ++ rest) (hs.ends rest) (by omega)
    have hes := readPairs_laid henc hs m rest (by omega)
    rw [htext, readPairs_comma hb, skip_blanks hb', hpair, he, Option.bind_some, hes, Option.map_some]

end

/-- **A value is read back from any layout** of it, with blanks around it. -/
theorem loads_laid (henc : ∀ c, Decodes enc c) {v : JsValue (Number R)} {b t b' : Text} (hb : Blanks b)
    (h : Laid enc v t) (hb' : Blanks b') : loads (b ++ (t ++ b')) = some v := by
  have hends : Ends b' := by
    have hnil := ends_blanks hb' (t := []) fun c hc => by cases hc
    rwa [List.append_nil] at hnil
  have hread := readValue_laid henc h ((b ++ (t ++ b')).length + 1) b' hends (by simp; omega)
  have hskip : skip b' = [] := by
    have hnil := skip_blanks hb' []
    rwa [List.append_nil] at hnil
  rw [loads, skip_blanks hb, h.skip, hread, Option.bind_some, hskip, if_pos rfl]

/-! ## Indented texts -/

/-- A new line at a depth. -/
def newLine (width depth : Nat) : Text := '\n' :: List.replicate (width * depth) ' '

section Write

variable (enc) (width : Nat)

mutual

/-- `json.dumps(value, indent=width)` at a depth. -/
def dumpsIndent : Nat → JsValue (Number R) → Text
  | _, null => "null".toList
  | _, .bool b => if b then "true".toList else "false".toList
  | _, number n => numberText n
  | _, text t => quoted enc t
  | _, list [] => ['[', ']']
  | d, list (v :: vs) => '[' :: (newLine width (d + 1) ++ (dumpsIndent (d + 1) v ++ indentItems d vs))
  | _, mapping [] => ['\x7b', '\x7d']
  | d, mapping ((k, v) :: es) =>
    '\x7b' :: (newLine width (d + 1) ++
      (quoted enc k ++ ':' :: ' ' :: dumpsIndent (d + 1) v ++ indentEntries d es))

/-- The further elements of a list, and its bracket. -/
def indentItems : Nat → List (JsValue (Number R)) → Text
  | d, [] => newLine width d ++ [']']
  | d, v :: vs => ',' :: (newLine width (d + 1) ++ (dumpsIndent (d + 1) v ++ indentItems d vs))

/-- The further pairs of an object, and its brace. -/
def indentEntries : Nat → List (Text × JsValue (Number R)) → Text
  | d, [] => newLine width d ++ ['\x7d']
  | d, (k, v) :: es =>
    ',' :: (newLine width (d + 1) ++
      (quoted enc k ++ ':' :: ' ' :: dumpsIndent (d + 1) v ++ indentEntries d es))

end

end Write

theorem blanks_newLine (width depth : Nat) : Blanks (newLine width depth) := by
  intro c hc
  rcases List.mem_cons.mp hc with rfl | hc
  · rfl
  · rw [List.eq_of_mem_replicate hc]
    rfl

theorem blanks_nil : Blanks [] := fun c hc => by cases hc

theorem blanks_space : Blanks [' '] := fun c hc => by
  obtain rfl := List.mem_singleton.mp hc
  rfl

mutual

/-- **What is written with an indentation** is a layout. -/
theorem laid_dumpsIndent (width : Nat) : ∀ (d : Nat) (v : JsValue (Number R)), Laid enc v (dumpsIndent enc width d v)
  | _, null => .null
  | _, .bool b => .bool b
  | _, number x => .number x
  | _, text t => .text t
  | _, list [] => .nil blanks_nil
  | d, list (v :: vs) => .list (blanks_newLine _ _) (laid_dumpsIndent width (d + 1) v) (laid_indentItems width d vs)
  | _, mapping [] => .empty blanks_nil
  | d, mapping ((k, v) :: es) =>
    .mapping (blanks_newLine _ _) (.mk k blanks_nil blanks_space (laid_dumpsIndent width (d + 1) v))
      (laid_indentEntries width d es)

theorem laid_indentItems (width : Nat) : ∀ (d : Nat) (vs : List (JsValue (Number R))),
    LaidItems enc vs (indentItems enc width d vs)
  | _, [] => .nil (blanks_newLine _ _)
  | d, v :: vs =>
    .cons blanks_nil (blanks_newLine _ _) (laid_dumpsIndent width (d + 1) v) (laid_indentItems width d vs)

theorem laid_indentEntries (width : Nat) : ∀ (d : Nat) (es : List (Text × JsValue (Number R))),
    LaidPairs enc es (indentEntries enc width d es)
  | _, [] => .nil (blanks_newLine _ _)
  | d, (k, v) :: es =>
    .cons blanks_nil (blanks_newLine _ _) (.mk k blanks_nil blanks_space (laid_dumpsIndent width (d + 1) v))
      (laid_indentEntries width d es)

end

end LabInABox.Text.PyJson
