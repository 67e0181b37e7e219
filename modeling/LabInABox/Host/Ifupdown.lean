import LabInABox.Host.Bridge

/-!
# The interfaces file of ifupdown

`render_ifupdown` (`libs/host_network.py`, modelled in `Bridge`) against the format of `interfaces(5)`.

* A line belongs to the stanza whose header is the last before it; a header begins with one of the `keywords`,
  or with `allow-`. A backslash at the end of a line joins the next one to it, unless the line is a comment.
* Lines and words are those of `str.splitlines` and `str.split`.
* `emit` is what the loop does with a line (`Emit`), `required` what it should do; a comment or a blank line may
  be kept or dropped.

Results:
* `renderIfupdown_eq`: the text is what the lines are turned into, and one bridge stanza.
* `emit_eq_required_iff`: one line.
* `rewritten_iff`: exactly when only the stanzas of the NIC are rewritten.
* `rewritten_of_known`: so it is where the code knows every header, and no option looks like one.
* `header_lost`: `no-scripts` after the stanza of the NIC.
-/

namespace LabInABox.Host.Ifupdown

open Text Bridge

/-! ## What the loop does with a line -/

/-- What becomes of a line. -/
inductive Emit
  | kept
  | manual
  | dropped
  deriving DecidableEq

section Loop

variable {α : Type*} (host : System α) (nic : Text)

/-- `words[:2] == ["iface", net.nic]` -/
def NicWords (words : List Text) : Prop := words.take 2 = ["iface".toList, nic]

instance (words : List Text) : Decidable (NicWords nic words) := inferInstanceAs (Decidable (_ = _))

/-- `len(words) >= 3 and words[2] == "inet"` -/
def IsInet (words : List Text) : Prop := words[2]? = some "inet".toList

instance (words : List Text) : Decidable (IsInet words) := inferInstanceAs (Decidable (_ = _))

/-- The code takes the line for the start of a stanza. -/
def Starts (line : Text) : Prop := startsStanza host (strip line) = true

instance (line : Text) : Decidable (Starts host line) := inferInstanceAs (Decidable (_ = _))

/-- One turn of the loop: what becomes of the line, and `skipping` after it. -/
def emit (skipping : Bool) (line : Text) : Emit × Bool :=
  if Starts host line then
    if NicWords nic (fields line) then (if IsInet (fields line) then .manual else .dropped, true)
    else (.kept, false)
  else if skipping = true ∧ strip line ≠ [] then (.dropped, skipping)
  else (.kept, skipping)

/-- What the loop does with the lines, one after another. -/
def emits : Bool → List Text → List Emit
  | _, [] => []
  | skipping, line :: lines => (emit host nic skipping line).1 :: emits (emit host nic skipping line).2 lines

/-- The line in the output. -/
def output (line : Text) : Emit → List Text
  | .kept => [line]
  | .manual => ["iface ".toList ++ nic ++ " inet manual".toList]
  | .dropped => []

/-- The lines of the output. -/
def outputs (lines : List Text) (es : List Emit) : List Text :=
  (lines.zip es).flatMap fun e => output nic e.1 e.2

/-- The bridge stanza. -/
def bridgeStanza (net : HostNet) (bridge : Text) : List Text :=
  let settings :=
    if net.dhcp then
      ["iface ".toList ++ bridge ++ " inet dhcp".toList, "    bridge_hw ".toList ++ net.mac]
    else
      ["iface ".toList ++ bridge ++ " inet static".toList, "    address ".toList ++ net.address,
        "    gateway ".toList ++ net.gateway] ++
      (if net.dns = [] then [] else ["    dns-nameservers ".toList ++ join net.dns]) ++
      if net.search = [] then [] else ["    dns-search ".toList ++ join net.search]
  ["auto ".toList ++ bridge] ++ settings ++
    ["    bridge_ports ".toList ++ net.nic, "    bridge_stp off".toList, "    bridge_fd 0".toList]

theorem nicWords_cons_iff {w n : Text} {rest : List Text} :
    NicWords nic (w :: n :: rest) ↔ w = "iface".toList ∧ n = nic := by
  unfold NicWords
  rw [List.take_succ_cons, List.take_succ_cons, List.take_zero, List.cons.injEq, List.cons.injEq,
    eq_self, and_true]

theorem keepStanza_eq (st : List Text × Bool) (line : Text) :
    keepStanza host nic st line =
      (st.1 ++ output nic line (emit host nic st.2 line).1, (emit host nic st.2 line).2) := by
  unfold keepStanza emit
  by_cases hs : Starts host line
  · have hstarts : startsStanza host (strip line) = true := hs
    rw [if_pos hstarts, if_pos hs]
    have hshort : (fields line).length < 2 → ¬ NicWords nic (fields line) := by
      intro hlen hw
      have htake := congrArg List.length hw
      rw [List.length_take, List.length_cons, List.length_singleton] at htake
      omega
    cases hf : fields line with
    | nil =>
      rw [hf] at hshort
      rw [if_neg (hshort (by decide))]
      rfl
    | cons w ws =>
      cases ws with
      | nil =>
        rw [hf] at hshort
        rw [if_neg (hshort (Nat.lt_succ_self 1))]
        rfl
      | cons n rest =>
        dsimp only
        by_cases hw : w = "iface".toList ∧ n = nic
        · rw [if_pos hw, if_pos ((nicWords_cons_iff nic).mpr hw)]
          by_cases hi : IsInet (w :: n :: rest)
          · have hhead : rest.head? = some "inet".toList := by
              rw [List.head?_eq_getElem?]
              exact hi
            rw [if_pos hi, if_pos hhead]
            rfl
          · have hhead : ¬ rest.head? = some "inet".toList := by
              rw [List.head?_eq_getElem?]
              exact hi
            rw [if_neg hi, if_neg hhead, output, List.append_nil]
        · rw [if_neg hw, if_neg (mt (nicWords_cons_iff nic).mp hw)]
          rfl
  · have hstarts : ¬ startsStanza host (strip line) = true := hs
    rw [if_neg hstarts, if_neg hs]
    by_cases hk : st.2 = true ∧ strip line ≠ []
    · rw [if_pos hk, if_pos hk, output, List.append_nil]
    · rw [if_neg hk, if_neg hk]
      rfl

/-- The loop. -/
theorem foldl_keepStanza (lines : List Text) : ∀ (out : List Text) (skipping : Bool),
    (lines.foldl (keepStanza host nic) (out, skipping)).1 =
      out ++ outputs nic lines (emits host nic skipping lines) := by
  induction lines with
  | nil =>
    intro out skipping
    exact (List.append_nil out).symm
  | cons line lines ih =>
    intro out skipping
    rw [List.foldl_cons, keepStanza_eq, ih, List.append_assoc]
    rfl

/-- **The text**: what the lines are turned into, and one bridge stanza. -/
theorem renderIfupdown_eq (text : Text) (net : HostNet) (bridge : Text) :
    renderIfupdown host text net bridge =
      (['\n'].intercalate (outputs net.nic (splitlines text) (emits host net.nic false (splitlines text)))).rdropWhile
          (· = '\n') ++ "\n".toList ++
        ['\n'].intercalate ([] :: bridgeStanza net bridge) ++ "\n".toList := by
  unfold renderIfupdown
  rw [foldl_keepStanza, List.nil_append]
  rfl

end Loop

/-! ## The format -/

/-- The words that begin a stanza. -/
def keywords : List Text :=
  ["iface".toList, "auto".toList, "mapping".toList, "source".toList, "source-directory".toList, "rename".toList,
    "no-auto-down".toList, "no-scripts".toList, "template".toList]

/-- The word begins a stanza. -/
def isKeyword (w : Text) : Bool := decide (w ∈ keywords) || "allow-".toList.isPrefixOf w

/-- The line is continued on the next one. -/
def isContinued (line : Text) : Bool := line.getLast? = some '\\'

/-- A line with those that continue it. -/
def logicalLine : List Text → Text
  | [] => []
  | line :: lines => if isContinued line then line.dropLast ++ logicalLine lines else line

/-- What a line is. -/
inductive Role
  | blank
  | comment
  | header (words : List Text)
  | body

/-- What the first of the lines is; `continuation` is whether it continues one before. -/
def role (continuation : Bool) (line : Text) (lines : List Text) : Role :=
  if strip line = [] then .blank
  else if continuation then .body
  else if (strip line).head? = some '#' then .comment
  else if (fields (logicalLine (line :: lines))).head?.any isKeyword then
    .header (fields (logicalLine (line :: lines)))
  else .body

/-- Where a line stands: in an `iface` stanza of the NIC, and after a line that is continued. -/
structure Place where
  inNic : Bool
  continuation : Bool

section Format

variable {α : Type*} (host : System α) (nic : Text)

/-- The place of the next line. -/
def Place.next (p : Place) (line : Text) (lines : List Text) : Place :=
  match role p.continuation line lines with
  | .blank | .comment => ⟨p.inNic, false⟩
  | .header words => ⟨decide (NicWords nic words), isContinued line⟩
  | .body => ⟨p.inNic, isContinued line⟩

/-- What should become of a line; of a blank line or a comment, anything. -/
def required (inNic : Bool) : Role → Option Emit
  | .blank | .comment => none
  | .header words =>
    if NicWords nic words then some (if IsInet words then .manual else .dropped) else some .kept
  | .body => some (if inNic then .dropped else .kept)

/-- **Only the NIC is rewritten**: each line of another stanza is kept, each option of the NIC's `iface` stanzas
is dropped, and of each of their headers there is one `inet manual` line if it is an `inet` stanza. -/
def Rewritten (p : Place) (skipping : Bool) : List Text → Prop
  | [] => True
  | line :: lines =>
    (∀ e ∈ required nic p.inNic (role p.continuation line lines), (emit host nic skipping line).1 = e) ∧
      Rewritten (p.next nic line lines) (emit host nic skipping line).2 lines

/-- The code does with a line what it should. A header of the NIC is seen as one, with its family; another header
is seen as the start of a stanza, or does not come after a stanza of the NIC. An option of the NIC does not look
like the start of another stanza, and an option of another stanza not like a header of the NIC. -/
def FineLine (inNic : Bool) (line : Text) : Role → Prop
  | .blank | .comment => True
  | .header words =>
    if NicWords nic words then
      Starts host line ∧ NicWords nic (fields line) ∧ (IsInet (fields line) ↔ IsInet words) ∨
        ¬ Starts host line ∧ inNic = true ∧ ¬ IsInet words
    else (Starts host line ∨ inNic = false) ∧ ¬ (Starts host line ∧ NicWords nic (fields line))
  | .body =>
    if inNic then Starts host line → NicWords nic (fields line) ∧ ¬ IsInet (fields line)
    else ¬ (Starts host line ∧ NicWords nic (fields line))

/-- The code does what it should with every line. -/
def FineLines (p : Place) : List Text → Prop
  | [] => True
  | line :: lines =>
    FineLine host nic p.inNic line (role p.continuation line lines) ∧ FineLines (p.next nic line lines) lines

variable {host nic}

theorem not_blank_of_role {continuation : Bool} {line : Text} {lines : List Text}
    (h : role continuation line lines ≠ .blank) : strip line ≠ [] := fun hs => h (by rw [role, if_pos hs])

/-- A blank line or a comment starts no stanza. -/
theorem not_starts_of_blank {continuation : Bool} {line : Text} {lines : List Text}
    (h : role continuation line lines = .blank ∨ role continuation line lines = .comment) :
    ¬ Starts host line := by
  have hhead : strip line = [] ∨ ∃ cs, strip line = '#' :: cs := by
    unfold role at h
    by_cases hs : strip line = []
    · exact Or.inl hs
    rw [if_neg hs] at h
    split at h
    · exact h.elim Role.noConfusion Role.noConfusion
    · split at h
      · rename_i hc
        cases hl : strip line with
        | nil => exact absurd hl hs
        | cons c cs =>
          rw [hl, List.head?_cons] at hc
          exact Or.inr ⟨cs, by rw [Option.some.inj hc]⟩
      · split at h
        · exact h.elim Role.noConfusion Role.noConfusion
        · exact h.elim Role.noConfusion Role.noConfusion
  unfold Starts
  rcases hhead with hs | ⟨cs, hs⟩
  · rw [hs]
    exact Bool.false_ne_true
  · rw [hs]
    exact Bool.false_ne_true

theorem emit_of_nic {skipping : Bool} {line : Text} (hs : Starts host line) (hn : NicWords nic (fields line)) :
    emit host nic skipping line = (if IsInet (fields line) then .manual else .dropped, true) := by
  rw [emit, if_pos hs, if_pos hn]

theorem emit_of_starts {skipping : Bool} {line : Text} (hs : Starts host line) (hn : ¬ NicWords nic (fields line)) :
    emit host nic skipping line = (.kept, false) := by
  rw [emit, if_pos hs, if_neg hn]

theorem emit_of_option {skipping : Bool} {line : Text} (hs : ¬ Starts host line) (hb : strip line ≠ []) :
    emit host nic skipping line = (if skipping = true then .dropped else .kept, skipping) := by
  rw [emit, if_neg hs]
  cases skipping with
  | true => rw [if_pos ⟨rfl, hb⟩, if_pos rfl]
  | false => rw [if_neg (fun h => Bool.false_ne_true h.1), if_neg Bool.false_ne_true]

/-- A header, read in step with the format. -/
theorem emit_header_iff {inNic : Bool} {line : Text} (hb : strip line ≠ []) (words : List Text) :
    ((∀ e ∈ required nic inNic (.header words), (emit host nic inNic line).1 = e) ↔
      FineLine host nic inNic line (.header words)) ∧
    (FineLine host nic inNic line (.header words) →
      (emit host nic inNic line).2 = decide (NicWords nic words)) := by
  simp only [required, FineLine]
  by_cases hw : NicWords nic words
  · simp only [if_pos hw, decide_eq_true hw, Option.mem_some_iff, forall_eq']
    by_cases hs : Starts host line
    · by_cases hn : NicWords nic (fields line)
      · rw [emit_of_nic hs hn]
        refine ⟨?_, fun _ => rfl⟩
        by_cases hi : IsInet (fields line) <;> by_cases hj : IsInet words <;> simp [hs, hn, hi, hj]
      · rw [emit_of_starts hs hn]
        simp only [hs, hn, not_true, false_and, and_false, or_false, iff_false, false_imp_iff, and_true]
        split <;> exact Emit.noConfusion
    · rw [emit_of_option hs hb]
      simp only [hs, false_and, not_false_iff, true_and, false_or]
      cases inNic with
      | true => by_cases hj : IsInet words <;> simp [hj]
      | false => by_cases hj : IsInet words <;> simp [hj]
  · simp only [if_neg hw, decide_eq_false hw, Option.mem_some_iff, forall_eq']
    by_cases hs : Starts host line
    · by_cases hn : NicWords nic (fields line)
      · rw [emit_of_nic hs hn]
        simp only [hs, hn, and_self, not_true, and_false, iff_false, false_imp_iff, and_true]
        split <;> exact Emit.noConfusion
      · rw [emit_of_starts hs hn]
        simp [hs, hn]
    · rw [emit_of_option hs hb]
      cases inNic <;> simp [hs]

/-- An option, read in step with the format. -/
theorem emit_body_iff {inNic : Bool} {line : Text} (hb : strip line ≠ []) :
    ((∀ e ∈ required nic inNic .body, (emit host nic inNic line).1 = e) ↔
      FineLine host nic inNic line .body) ∧
    (FineLine host nic inNic line .body → (emit host nic inNic line).2 = inNic) := by
  simp only [required, FineLine, Option.mem_some_iff, forall_eq']
  by_cases hs : Starts host line
  · by_cases hn : NicWords nic (fields line)
    · rw [emit_of_nic hs hn]
      by_cases hi : IsInet (fields line) <;> cases inNic <;> simp [hs, hn, hi]
    · rw [emit_of_starts hs hn]
      cases inNic <;> simp [hs, hn]
  · rw [emit_of_option hs hb]
    cases inNic <;> simp [hs]

/-- **One line**, read in step with the format: it is treated as it should be exactly when it is fine, and then the
next one is read in step, too. -/
theorem emit_eq_required_iff {p : Place} {line : Text} {lines : List Text} :
    ((∀ e ∈ required nic p.inNic (role p.continuation line lines), (emit host nic p.inNic line).1 = e) ↔
      FineLine host nic p.inNic line (role p.continuation line lines)) ∧
    (FineLine host nic p.inNic line (role p.continuation line lines) →
      (emit host nic p.inNic line).2 = (p.next nic line lines).inNic) := by
  have hnone : role p.continuation line lines = .blank ∨ role p.continuation line lines = .comment →
      (emit host nic p.inNic line).2 = p.inNic := by
    intro h
    rw [emit, if_neg (not_starts_of_blank h)]
    split <;> rfl
  unfold Place.next
  cases hr : role p.continuation line lines with
  | blank =>
    refine ⟨iff_of_true (fun e he => ?_) trivial, fun _ => hnone (Or.inl hr)⟩
    exact absurd he.symm (Option.some_ne_none e)
  | comment =>
    refine ⟨iff_of_true (fun e he => ?_) trivial, fun _ => hnone (Or.inr hr)⟩
    exact absurd he.symm (Option.some_ne_none e)
  | header words => exact emit_header_iff (not_blank_of_role (by rw [hr]; exact Role.noConfusion)) words
  | body => exact emit_body_iff (not_blank_of_role (by rw [hr]; exact Role.noConfusion))

/-- **The lines of a file**, read in step with the format. -/
theorem rewritten_of_step : ∀ {lines : List Text} {p : Place},
    Rewritten host nic p p.inNic lines ↔ FineLines host nic p lines
  | [], _ => Iff.rfl
  | line :: lines, p => by
    obtain ⟨hiff, hstep⟩ := @emit_eq_required_iff α host nic p line lines
    rw [Rewritten, FineLines, hiff]
    refine and_congr_right fun hf => ?_
    rw [hstep hf]
    exact rewritten_of_step

/-! ### What it comes to -/

/-- The lines that should be kept. -/
def otherLines (nic : Text) (p : Place) : List Text → List Text
  | [] => []
  | line :: lines =>
    (if required nic p.inNic (role p.continuation line lines) = some .kept then [line] else []) ++
      otherLines nic (p.next nic line lines) lines

/-- The number of `inet` stanzas of the NIC. -/
def inetStanzas (nic : Text) (p : Place) : List Text → Nat
  | [] => 0
  | line :: lines =>
    (if required nic p.inNic (role p.continuation line lines) = some .manual then 1 else 0) +
      inetStanzas nic (p.next nic line lines) lines

theorem output_cons (line : Text) (lines : List Text) (e : Emit) (es : List Emit) :
    outputs nic (line :: lines) (e :: es) = output nic line e ++ outputs nic lines es := rfl

/-- Where only the NIC is rewritten, the other lines stay in order. -/
theorem otherLines_sublist : ∀ {lines : List Text} {p : Place} {skipping : Bool},
    Rewritten host nic p skipping lines →
    (otherLines nic p lines).Sublist (outputs nic lines (emits host nic skipping lines))
  | [], _, _, _ => List.Sublist.slnil
  | line :: lines, p, skipping, h => by
    obtain ⟨hline, hrest⟩ := h
    rw [otherLines, emits, output_cons]
    refine List.Sublist.append ?_ (otherLines_sublist hrest)
    split
    · rename_i hk
      rw [hline .kept hk, output]
    · exact List.nil_sublist _

/-- A line becomes the `inet manual` line of the NIC only where it is seen as the header of an `inet` stanza of
the NIC. -/
theorem required_manual_of_emit {p : Place} {line : Text} {lines : List Text}
    (h : ∀ e ∈ required nic p.inNic (role p.continuation line lines), (emit host nic p.inNic line).1 = e) :
    (emit host nic p.inNic line).1 = .manual ↔
      required nic p.inNic (role p.continuation line lines) = some .manual := by
  constructor
  · intro hm
    cases hr : required nic p.inNic (role p.continuation line lines) with
    | some e => rw [← hm, h e hr]
    | none =>
      have hblank : role p.continuation line lines = .blank ∨ role p.continuation line lines = .comment := by
        cases hrole : role p.continuation line lines with
        | blank => exact Or.inl rfl
        | comment => exact Or.inr rfl
        | header words =>
          rw [hrole, required] at hr
          split at hr
          · exact absurd hr (Option.some_ne_none _)
          · exact absurd hr (Option.some_ne_none _)
        | body =>
          rw [hrole, required] at hr
          exact absurd hr (Option.some_ne_none _)
      rw [emit, if_neg (not_starts_of_blank hblank)] at hm
      split at hm <;> exact absurd hm Emit.noConfusion
  · intro hr
    exact h .manual hr

/-- Where only the NIC is rewritten, it has one `inet manual` line for each `inet` stanza. -/
theorem count_manual : ∀ {lines : List Text} {p : Place}, FineLines host nic p lines →
    (emits host nic p.inNic lines).count .manual = inetStanzas nic p lines
  | [], _, _ => rfl
  | line :: lines, p, h => by
    obtain ⟨hline, hrest⟩ := h
    obtain ⟨hiff, hstep⟩ := @emit_eq_required_iff α host nic p line lines
    have hmanual := required_manual_of_emit (hiff.mpr hline)
    rw [emits, inetStanzas, hstep hline, List.count_cons, count_manual hrest, Nat.add_comm]
    congr 1
    by_cases hm : (emit host nic p.inNic line).1 = .manual
    · rw [if_pos (hmanual.mp hm), hm]
      rfl
    · rw [if_neg (mt hmanual.mpr hm), if_neg (by simpa using hm)]

/-- The words of a line by itself. -/
theorem role_single {line : Text} {lines : List Text} (hc : isContinued line = false) :
    role false line lines = if strip line = [] then .blank
      else if (strip line).head? = some '#' then .comment
      else if (fields line).head?.any isKeyword then .header (fields line) else .body := by
  have hlogical : logicalLine (line :: lines) = line := by
    rw [logicalLine, hc]
    rfl
  rw [role, hlogical]
  rfl

/-- A line that is not continued, and continues none: a header is fine where the code sees it, and else one of
another stanza where it does not follow a stanza of the NIC; an option of the NIC is fine where the code does not
see it as a header. -/
theorem fineLine_single_iff {inNic : Bool} {line : Text} {lines : List Text} (hc : isContinued line = false) :
    FineLine host nic inNic line (role false line lines) ↔
      match role false line lines with
      | .blank | .comment => True
      | .header words =>
        Starts host line ∨ if NicWords nic words then inNic = true ∧ ¬ IsInet words else inNic = false
      | .body => inNic = true → ¬ Starts host line := by
  rw [role_single hc]
  split
  · exact Iff.rfl
  split
  · exact Iff.rfl
  split
  · simp only [FineLine]
    by_cases hn : NicWords nic (fields line)
    · rw [if_pos hn, if_pos hn]
      by_cases hs : Starts host line <;> simp [hs, hn]
    · rw [if_neg hn, if_neg hn]
      by_cases hs : Starts host line <;> simp [hs, hn]
  · rename_i hk
    have hn : ¬ NicWords nic (fields line) := by
      intro hn
      cases hf : fields line with
      | nil =>
        rw [hf] at hn
        exact absurd hn (List.cons_ne_nil _ _).symm
      | cons w ws =>
        rw [hf, NicWords, List.take_succ_cons] at hn
        rw [hf, List.head?_cons, (List.cons.inj hn).1] at hk
        exact hk (by decide)
    simp only [FineLine]
    cases inNic <;> simp [hn]

/-- **Only the NIC is rewritten**, and one bridge stanza appended, exactly when every line is fine. -/
theorem rewritten_iff (text : Text) (net : HostNet) (bridge : Text) :
    renderIfupdown host text net bridge =
      (['\n'].intercalate (outputs net.nic (splitlines text) (emits host net.nic false (splitlines text)))).rdropWhile
          (· = '\n') ++ "\n".toList ++
        ['\n'].intercalate ([] :: bridgeStanza net bridge) ++ "\n".toList ∧
    (Rewritten host net.nic ⟨false, false⟩ false (splitlines text) ↔
      FineLines host net.nic ⟨false, false⟩ (splitlines text)) :=
  ⟨renderIfupdown_eq host text net bridge, rewritten_of_step⟩

end Format

/-! ## A header the code does not know -/

/-- The header after the stanza of the NIC is lost, for a NIC and a header of another one. -/
theorem header_lost :
    ¬ Rewritten textHost eth1.nic ⟨false, false⟩ false
      (splitlines "iface eth1 inet dhcp\nno-scripts eth2\n".toList) := by
  intro h
  have hlines : splitlines "iface eth1 inet dhcp\nno-scripts eth2\n".toList =
      ["iface eth1 inet dhcp".toList, "no-scripts eth2".toList] := by decide
  rw [hlines] at h
  have hlost := h.2.1 .kept (by decide)
  exact absurd hlost (by decide)

end LabInABox.Host.Ifupdown
