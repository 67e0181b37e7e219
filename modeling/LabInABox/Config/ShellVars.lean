import LabInABox.Config.Shell
import LabInABox.Objects
import LabInABox.Text.Matcher

/-!
# Configuration files

Model of `_parse_shell_vars` (`libs/primary.py`), and its substitution of references beside the shell's
expansion.

* `environ` is the environment of the process. `isalnum` says which characters outside of ASCII are a part of
  `\w`; the text that `open` reads has only `'\n'` left of its line ends.
* The references of a text are `Aligned` where no character of `\w` outside of ASCII follows a `$`, or the name
  that follows it: there the shell's name ends, and the parser's does not.

Results:
* `varRef_of_literal`, `varRef_of_name`: what a `$` begins for the parser, by what it begins for the shell.
* `replaceMatches_of_expand`: what the shell expands is substituted, whatever follows.
* `subst_eq_expand`: the same, of a text by itself.
-/

namespace LabInABox.Config

open Text Shell

/-! ## The parser -/

section Parser

variable (isalnum : Char → Bool)

/-- `\w` -/
def wordChar (c : Char) : Bool := nameChar c || (128 ≤ c.toNat && isalnum c)

/-- `_VAR_REF_RE` at the start of a text: the name, and the text it matches. -/
def varRef : Text → Option (Text × Text)
  | '$' :: '\x7b' :: ds =>
    if ds.takeWhile (wordChar isalnum) ≠ [] ∧ (ds.dropWhile (wordChar isalnum)).head? = some '}' then
      some (ds.takeWhile (wordChar isalnum), '$' :: '\x7b' :: ds.takeWhile (wordChar isalnum) ++ ['}'])
    else none
  | '$' :: cs =>
    if cs.takeWhile (wordChar isalnum) ≠ [] then
      some (cs.takeWhile (wordChar isalnum), '$' :: cs.takeWhile (wordChar isalnum))
    else none
  | _ => none

/-- `_expand(m)` of a match, by the name's value: the length of the match, and what stands for it. -/
def expandMatch (value : Env) (t : Text) : Option (Nat × Text) :=
  (varRef isalnum t).map fun m => (m.2.length, (value m.1).getD m.2)

/-- `_VAR_REF_RE.sub(_expand, raw)` -/
def subst (value : Env) (t : Text) : Text := replaceMatches (expandMatch isalnum value) 0 t

end Parser

/-- `raw.startswith("(") or "$(" in raw or "`" in raw`, but for the start. -/
def hasSubstitution : Text → Bool
  | [] => false
  | '$' :: '(' :: _ => true
  | c :: cs => c = '`' || hasSubstitution cs

/-- The text before the first `" #"`. -/
def beforeComment : Text → Option Text
  | [] => none
  | ' ' :: '#' :: _ => some []
  | c :: cs => (beforeComment cs).map (c :: ·)

/-- The value without its quotes, or without its comment. -/
def unquote (raw : Text) : Text :=
  match raw with
  | '"' :: cs => cs.takeWhile (· ≠ '"')
  | '\'' :: cs => cs.takeWhile (· ≠ '\'')
  | _ =>
    match beforeComment raw with
    | some before => before.rdropWhile isSpace
    | none => raw

/-- `re.match(r"^([A-Za-z_][A-Za-z0-9_]*)=(.*)", line)` -/
def assignment (line : Text) : Option (Text × Text) :=
  match line.dropWhile nameChar with
  | '=' :: rest =>
    if (line.takeWhile nameChar).head?.any nameStart then some (line.takeWhile nameChar, rest) else none
  | _ => none

/-- The starts of lines that declare. -/
def declarations : List Text := ["declare".toList, "export declare".toList, "typeset".toList]

section File

variable (isalnum : Char → Bool) (environ : Env)

/-- The value of a name, of the file or of the environment. -/
def valueOf (result : Obj Text Text) : Env := fun name => (result.get name).or (environ name)

/-- One line of `_parse_shell_vars`. -/
def parseLine (result : Obj Text Text) (line : Text) : Obj Text Text :=
  let line := strip line
  if line = [] ∨ line.head? = some '#' ∨ '=' ∉ line then result
  else if declarations.any (·.isPrefixOf line) then result
  else
    match assignment line with
    | none => result
    | some (key, rest) =>
      let raw := strip rest
      if raw.head? = some '(' ∨ hasSubstitution raw = true then result
      else result.set key (subst isalnum (valueOf environ result) (unquote raw))

/-- `_parse_shell_vars(text)` -/
def parseShellVars (text : Text) : Obj Text Text :=
  (splitlines text).foldl (parseLine isalnum environ) Obj.empty

end File

/-! ## Substituting and expanding -/

section Subst

variable (isalnum : Char → Bool)

/-- No letter or digit outside of ASCII follows a `$`, or the name that follows it. -/
def Aligned (t : Text) : Prop :=
  ∀ cs, '$' :: cs <:+ t → ∀ c, (cs.dropWhile nameChar).head? = some c → wordChar isalnum c = false

variable {isalnum}

theorem wordChar_of_nameChar {c : Char} (h : nameChar c = true) : wordChar isalnum c = true := by
  unfold wordChar
  rw [h, Bool.true_or]

/-- A run of name characters is a run of `\w` where nothing else of `\w` follows. -/
theorem wordRun_eq {n rest : Text} (hn : ∀ c ∈ n, nameChar c = true)
    (h : ∀ c, rest.head? = some c → wordChar isalnum c = false) :
    (n ++ rest).takeWhile (wordChar isalnum) = n ∧ (n ++ rest).dropWhile (wordChar isalnum) = rest := by
  have hall : ∀ c ∈ n, wordChar isalnum c = true := fun c hc => wordChar_of_nameChar (hn c hc)
  rw [List.takeWhile_append_of_pos hall, List.dropWhile_append_of_pos hall]
  cases rest with
  | nil => exact ⟨List.append_nil n, rfl⟩
  | cons c cs =>
    have hc : ¬ wordChar isalnum c = true := by
      rw [h c rfl]
      exact Bool.false_ne_true
    rw [List.takeWhile_cons_of_neg hc, List.dropWhile_cons_of_neg hc, List.append_nil]
    exact ⟨rfl, rfl⟩

/-- What may follow a text without changing the references in it. -/
def Ends (isalnum : Char → Bool) (r : Text) : Prop :=
  ∀ c, r.head? = some c → wordChar isalnum c = false ∧ c ≠ '\x7b'

theorem varRef_of_ne {c : Char} {cs : Text} (h : c ≠ '$') : varRef isalnum (c :: cs) = none := by
  unfold varRef
  split
  · rename_i heq
    exact absurd (List.cons.inj heq).1 h
  · rename_i heq
    exact absurd (List.cons.inj heq).1 h
  · rfl

theorem varRef_of_not_brace {cs : Text} (h : cs.head? ≠ some '\x7b') :
    varRef isalnum ('$' :: cs) =
      if cs.takeWhile (wordChar isalnum) ≠ [] then
        some (cs.takeWhile (wordChar isalnum), '$' :: cs.takeWhile (wordChar isalnum))
      else none := by
  cases cs with
  | nil => rfl
  | cons c cs =>
    have hc : c ≠ '\x7b' := fun hc => h (by rw [hc, List.head?_cons])
    unfold varRef
    split
    · rename_i heq
      exact absurd (List.cons.inj (List.cons.inj heq).2).1 hc
    · rename_i heq
      rw [(List.cons.inj heq).2]
    · rename_i hno
      exact absurd rfl (hno (c :: cs))

/-- A `$` that begins nothing for the shell begins nothing for the parser. -/
theorem varRef_of_literal {cs r : Text} (h : refAt cs = .literal)
    (ha : ∀ c, (cs.dropWhile nameChar).head? = some c → wordChar isalnum c = false) (hr : Ends isalnum r) :
    varRef isalnum ('$' :: (cs ++ r)) = none := by
  have hnone : ∀ ds : Text, ds.head? ≠ some '\x7b' → (∀ c, ds.head? = some c → wordChar isalnum c = false) →
      varRef isalnum ('$' :: ds) = none := by
    intro ds hb hw
    rw [varRef_of_not_brace hb, if_neg]
    rw [not_not]
    cases ds with
    | nil => rfl
    | cons c ds => rw [List.takeWhile_cons_of_neg (by rw [hw c rfl]; exact Bool.false_ne_true)]
  unfold refAt at h
  split at h
  · exact hnone r (fun hb => (hr _ hb).2 rfl) fun c hc => (hr c hc).1
  · split at h
    · exact absurd h Ref.noConfusion
    · exact absurd h Ref.noConfusion
  · rename_i c cs' hb
    split at h
    · exact absurd h Ref.noConfusion
    rename_i hs
    split at h
    · exact absurd h Ref.noConfusion
    rename_i hd
    have hname : nameChar c = false := by
      unfold nameStart at hs
      unfold nameChar Char.isAlphanum
      simp only [Bool.or_eq_true, not_or, Bool.not_eq_true, decide_eq_true_eq] at hs hd
      rw [hs.1, hd.1, Bool.or_false, Bool.false_or]
      exact decide_eq_false hs.2
    have hdrop : (c :: cs').dropWhile nameChar = c :: cs' :=
      List.dropWhile_cons_of_neg (by rw [hname]; exact Bool.false_ne_true)
    refine hnone _ (fun hh => ?_) fun d hd => ?_
    · rw [List.cons_append, List.head?_cons] at hh
      exact hb (Option.some.inj hh)
    · rw [List.cons_append, List.head?_cons] at hd
      rw [← Option.some.inj hd]
      exact ha c (by rw [hdrop, List.head?_cons])

theorem wordChar_close : wordChar isalnum '}' = false := by
  have hname : nameChar '}' = false := by decide
  have hascii : decide (128 ≤ '}'.toNat) = false := by decide
  rw [wordChar, hname, hascii]
  rfl

/-- A reference of the shell is the parser's. -/
theorem varRef_of_name {cs r n : Text} {length : Nat} (h : refAt cs = .name n length)
    (ha : ∀ c, (cs.dropWhile nameChar).head? = some c → wordChar isalnum c = false) (hr : Ends isalnum r) :
    length ≤ cs.length ∧ ∃ m, varRef isalnum ('$' :: (cs ++ r)) = some (n, m) ∧ m.length = length + 1 := by
  have hname : ∀ t : Text, ∀ c ∈ t.takeWhile nameChar, nameChar c = true := fun t c hc =>
    List.mem_takeWhile_imp hc
  unfold refAt at h
  split at h
  · exact absurd h Ref.noConfusion
  · rename_i ds
    split at h
    · rename_i hb
      obtain ⟨rfl, rfl⟩ := Ref.name.inj h
      rw [Bool.and_eq_true, decide_eq_true_eq] at hb
      obtain ⟨rest, hrest⟩ : ∃ rest, ds.dropWhile nameChar = '}' :: rest := by
        cases hd : ds.dropWhile nameChar with
        | nil => exact absurd (hd ▸ hb.2) (Option.some_ne_none _).symm
        | cons c rest =>
          have hc := hb.2
          rw [hd, List.head?_cons] at hc
          exact ⟨rest, by rw [Option.some.inj hc]⟩
      have hsplit : ds.takeWhile nameChar ++ '}' :: rest = ds := by
        rw [← hrest]
        exact List.takeWhile_append_dropWhile
      have hne : ds.takeWhile nameChar ≠ [] := fun he => by
        rw [he] at hb
        exact absurd hb.1 (by decide)
      have hrun := @wordRun_eq isalnum _ ('}' :: (rest ++ r)) (hname ds) fun c hc => by
        rw [← Option.some.inj hc]
        exact wordChar_close
      rw [← List.cons_append, ← List.append_assoc, hsplit] at hrun
      have hlen := congrArg List.length hsplit
      rw [List.length_append, List.length_cons] at hlen
      refine ⟨by rw [List.length_cons]; omega, '$' :: '\x7b' :: ds.takeWhile nameChar ++ ['}'], ?_, ?_⟩
      · rw [List.cons_append, varRef, hrun.1, hrun.2, if_pos ⟨hne, rfl⟩]
      · simp only [List.length_cons, List.length_append, List.length_nil]
    · exact absurd h Ref.noConfusion
  · rename_i c cs' hb
    split at h
    · rename_i hs
      obtain ⟨rfl, rfl⟩ := Ref.name.inj h
      have hsplit : (c :: cs').takeWhile nameChar ++ (c :: cs').dropWhile nameChar = c :: cs' :=
        List.takeWhile_append_dropWhile
      have hne : (c :: cs').takeWhile nameChar ≠ [] := by
        rw [List.takeWhile_cons_of_pos (nameChar_of_nameStart hs)]
        exact List.cons_ne_nil _ _
      have hrun := @wordRun_eq isalnum _ ((c :: cs').dropWhile nameChar ++ r) (hname (c :: cs')) fun d hd => by
        cases hdrop : (c :: cs').dropWhile nameChar with
        | nil =>
          rw [hdrop, List.nil_append] at hd
          exact (hr d hd).1
        | cons e es =>
          rw [hdrop, List.cons_append, List.head?_cons] at hd
          exact ha d (by rw [hdrop, List.head?_cons]; exact hd)
      rw [← List.append_assoc, hsplit] at hrun
      have hlen := congrArg List.length hsplit
      rw [List.length_append] at hlen
      refine ⟨by omega, '$' :: (c :: cs').takeWhile nameChar, ?_, ?_⟩
      · rw [varRef_of_not_brace, hrun.1, if_pos hne]
        intro hh
        rw [List.cons_append, List.head?_cons] at hh
        exact hb (Option.some.inj hh)
      · exact List.length_cons
    · split at h
      · exact absurd h Ref.noConfusion
      · exact absurd h Ref.noConfusion

/-- **Where the shell expands a plain text, the parser substitutes the same**, whatever follows. -/
theorem replaceMatches_of_expand {σ value : Env} (hv : ∀ n v, σ n = some v → value n = some v) {r : Text}
    (hr : Ends isalnum r) : ∀ {t v : Text} {skip : Nat}, skip ≤ t.length → Aligned isalnum t →
      expand σ skip t = some v →
      replaceMatches (expandMatch isalnum value) skip (t ++ r) =
        v ++ replaceMatches (expandMatch isalnum value) 0 r
  | [], v, skip, hs, _, h => by
    rw [expand] at h
    rw [← Option.some.inj h, List.nil_append, List.nil_append, Nat.le_zero.mp hs]
  | c :: cs, v, skip + 1, hs, ha, h => by
    rw [expand] at h
    rw [List.cons_append, replaceMatches]
    exact replaceMatches_of_expand hv hr (Nat.le_of_succ_le_succ hs)
      (fun ds hd => ha ds (hd.trans (List.suffix_cons c cs))) h
  | c :: cs, v, 0, _, ha, h => by
    have hcs : Aligned isalnum cs := fun ds hd => ha ds (hd.trans (List.suffix_cons c cs))
    rw [expand] at h
    rw [List.cons_append]
    by_cases hc : c = '$'
    · rw [if_pos hc] at h
      rw [hc] at ha ⊢
      have hend := ha cs (List.suffix_refl _)
      split at h
      · rename_i href
        obtain ⟨u, hu, rfl⟩ := Option.map_eq_some_iff.mp h
        rw [replaceMatches_none (by rw [expandMatch, varRef_of_literal href hend hr, Option.map_none]),
          replaceMatches_of_expand hv hr (Nat.zero_le _) hcs hu]
        rfl
      · rename_i n length href
        obtain ⟨x, hx, h⟩ := Option.bind_eq_some_iff.mp h
        obtain ⟨u, hu, rfl⟩ := Option.map_eq_some_iff.mp h
        obtain ⟨hle, m, hm, hlen⟩ := varRef_of_name href hend hr
        have hmatch : expandMatch isalnum value ('$' :: (cs ++ r)) = some (length + 1, x) := by
          rw [expandMatch, hm, Option.map_some, hlen, hv n x hx, Option.getD_some]
        rw [replaceMatches_some hmatch, replaceMatches_of_expand hv hr hle hcs hu, List.append_assoc]
      · exact absurd h.symm (Option.some_ne_none v)
    · rw [if_neg hc] at h
      split at h
      · exact absurd h.symm (Option.some_ne_none v)
      · obtain ⟨u, hu, rfl⟩ := Option.map_eq_some_iff.mp h
        rw [replaceMatches_none (by rw [expandMatch, varRef_of_ne hc, Option.map_none]),
          replaceMatches_of_expand hv hr (Nat.zero_le _) hcs hu]
        rfl

/-- The same, of a text by itself. -/
theorem subst_eq_expand {σ value : Env} (hv : ∀ n v, σ n = some v → value n = some v) {t v : Text}
    (ha : Aligned isalnum t) (h : expand σ 0 t = some v) : subst isalnum value t = v := by
  have happend := replaceMatches_of_expand hv (r := []) (fun c hc => absurd hc.symm (Option.some_ne_none c))
    (Nat.zero_le _) ha h
  rwa [List.append_nil, replaceMatches, List.append_nil] at happend

end Subst

end LabInABox.Config
