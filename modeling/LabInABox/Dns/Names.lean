import LabInABox.Dns.Rows
import LabInABox.Ipv4

/-!
# Host names and addresses in records

What the records of the DNS service are made of: host names, of letters, digits, `-`, `_` and dots,
and IPv4 addresses as `ipaddress` reads them.

Results:
* `exists_lastOctet`: the last octet of an address is a number after a dot.
* `IsRecordText.plain_or_dot`: as a pattern of `sed`, no character of a record but a dot is special.
* `rowOf_aRecord`, `rowOf_ptrRecord`, `rowOf_serviceRecord`: what each record says.
-/

namespace LabInABox.Dns

open Text

/-! ## Characters -/

/-- A character of a host name. -/
def hostChar (c : Char) : Bool := c.isAlphanum || c == '-' || c == '_' || c == '.'

/-- A host name: its characters, and a first label. -/
structure IsHostName (n : Text) : Prop where
  label : shortName n ≠ []
  chars : n.all hostChar = true

instance decidableIsHostName (n : Text) : Decidable (IsHostName n) :=
  decidable_of_iff (shortName n ≠ [] ∧ n.all hostChar = true)
    ⟨fun h => ⟨h.1, h.2⟩, fun h => ⟨h.1, h.2⟩⟩

/-- An IPv4 address, as `ipaddress` reads it. -/
def IsIpv4 (ip : Text) : Prop := (Ipv4.parse ip).isSome = true

instance decidableIsIpv4 (ip : Text) : Decidable (IsIpv4 ip) := inferInstanceAs (Decidable (_ = _))

variable {c : Char} {n ip : Text}

theorem hostChar_cases (h : hostChar c = true) :
    c.isAlphanum = true ∨ c = '-' ∨ c = '_' ∨ c = '.' := by
  simp only [hostChar, Bool.or_eq_true, beq_iff_eq] at h
  tauto

theorem isSpace_of_hostChar (h : hostChar c = true) : isSpace c = false := by
  rcases hostChar_cases h with h | rfl | rfl | rfl
  · exact isSpace_of_isAlphanum h
  · decide
  · decide
  · decide

theorem ne_semicolon_of_hostChar (h : hostChar c = true) : c ≠ ';' := by
  rintro rfl
  exact absurd h (by decide)

theorem plain_or_dot_of_hostChar (h : hostChar c = true) : Plain c ∨ c = '.' := by
  by_cases hd : c = '.'
  · exact Or.inr hd
  · refine Or.inl fun hm => ?_
    have hall : ("\\[.*^$/".toList.all fun x => !hostChar x || x == '.') = true := by decide
    have := List.all_eq_true.mp hall c hm
    simp [h, hd] at this

/-! ## Words -/

/-- A word of host characters. -/
def IsWord (t : Text) : Prop := t ≠ [] ∧ ∀ c ∈ t, hostChar c = true

theorem IsWord.isField {t : Text} (h : IsWord t) : IsField isSpace t :=
  ⟨h.1, fun c hc => isSpace_of_hostChar (h.2 c hc)⟩

theorem IsHostName.word (h : IsHostName n) : IsWord n := by
  refine ⟨fun e => h.label ?_, fun c hc => List.all_eq_true.mp h.chars c hc⟩
  rw [e]
  rfl

theorem IsHostName.short (h : IsHostName n) : IsWord (shortName n) :=
  ⟨h.label, fun c hc => h.word.2 c (List.takeWhile_subset _ hc)⟩

theorem IsWord.append_dot {t : Text} (h : IsWord t) : IsWord (t ++ ['.']) := by
  refine ⟨by simp, fun c hc => ?_⟩
  rcases List.mem_append.mp hc with hc | hc
  · exact h.2 c hc
  · rw [List.mem_singleton.mp hc]
    decide

theorem hostChar_of_isDigit (h : c.isDigit = true) : hostChar c = true := by
  simp [hostChar, Char.isAlphanum, h]

/-- **The last octet of an address** is a number, after a dot, and the rest is digits and dots. -/
theorem exists_lastOctet (h : IsIpv4 ip) : ∃ (pre : Text) (m : Nat),
    ip = pre ++ '.' :: Nat.toDigits 10 m ∧ lastOctet ip = Nat.toDigits 10 m ∧
      ∀ c ∈ pre, c.isDigit = true ∨ c = '.' := by
  obtain ⟨a, ha⟩ := Option.isSome_iff_exists.mp h
  obtain rfl := Ipv4.render_of_parse ha
  have hdigit : ∀ {k : Nat} {c : Char}, c ∈ Nat.toDigits 10 k → c.isDigit = true := fun hc =>
    Nat.isDigit_of_mem_toDigits (by decide) (by decide) hc
  have hpre : ∃ pre : Text, Ipv4.render a = pre ++ '.' :: Nat.toDigits 10 (a % 256) ∧
      ∀ c ∈ pre, c.isDigit = true ∨ c = '.' := by
    refine ⟨Nat.toDigits 10 (a / 16777216 % 256) ++ '.' :: (Nat.toDigits 10 (a / 65536 % 256) ++
      '.' :: Nat.toDigits 10 (a / 256 % 256)), ?_, fun c hc => ?_⟩
    · simp [Ipv4.render, Ipv4.octets, List.intercalate_cons_cons]
    · simp only [List.mem_append, List.mem_cons] at hc
      rcases hc with hc | hc | hc | hc | hc
      · exact Or.inl (hdigit hc)
      · exact Or.inr hc
      · exact Or.inl (hdigit hc)
      · exact Or.inr hc
      · exact Or.inl (hdigit hc)
  obtain ⟨pre, he, hc⟩ := hpre
  refine ⟨pre, a % 256, he, ?_, hc⟩
  rw [he, lastOctet]
  have hno : ∀ c ∈ Nat.toDigits 10 (a % 256), c ≠ '.' := fun c hm e =>
    Ipv4.dot_not_mem_toDigits _ (e ▸ hm)
  rw [List.rtakeWhile, List.reverse_append, List.reverse_cons, List.append_assoc,
    List.takeWhile_append_of_pos fun c hm => by simpa using hno c (List.mem_reverse.mp hm)]
  simp

theorem lastOctet_digits (h : IsIpv4 ip) :
    lastOctet ip ≠ [] ∧ ∀ c ∈ lastOctet ip, c.isDigit = true := by
  obtain ⟨_, m, _, he, _⟩ := exists_lastOctet h
  rw [he]
  exact ⟨Nat.toDigits_ne_nil, fun c hc => Nat.isDigit_of_mem_toDigits (by decide) (by decide) hc⟩

theorem IsIpv4.octet (h : IsIpv4 ip) : IsWord (lastOctet ip) :=
  ⟨(lastOctet_digits h).1, fun c hc => hostChar_of_isDigit ((lastOctet_digits h).2 c hc)⟩

theorem IsIpv4.word (h : IsIpv4 ip) : IsWord ip := by
  obtain ⟨pre, m, he, ho, hc⟩ := exists_lastOctet h
  refine ⟨by rw [he]; simp, fun c hm => ?_⟩
  rw [he, ← ho, List.mem_append, List.mem_cons] at hm
  rcases hm with hm | rfl | hm
  · rcases hc c hm with hd | rfl
    · exact hostChar_of_isDigit hd
    · decide
  · decide
  · exact h.octet.2 c hm

/-! ## Records -/

/-- A character of a record. -/
def recordChar (c : Char) : Bool := hostChar c || c == ' ' || c == '\t'

/-- The text of a record: words, and blanks between them. -/
def IsRecordText (r : Text) : Prop := ∀ c ∈ r, recordChar c = true

variable {r : Text}

theorem recordChar_cases (h : recordChar c = true) : hostChar c = true ∨ c = ' ' ∨ c = '\t' := by
  simp only [recordChar, Bool.or_eq_true, beq_iff_eq] at h
  tauto

theorem IsWord.text {t : Text} (h : IsWord t) : IsRecordText t := fun c hc => by
  rw [recordChar, h.2 c hc]
  rfl

theorem IsRecordText.append {u v : Text} (hu : IsRecordText u) (hv : IsRecordText v) :
    IsRecordText (u ++ v) := fun c hc => (List.mem_append.mp hc).elim (hu c) (hv c)

theorem IsRecordText.cons {v : Text} (h : recordChar c = true) (hv : IsRecordText v) :
    IsRecordText (c :: v) := fun d hd => (List.mem_cons.mp hd).elim (fun e => e ▸ h) (hv d)

theorem isRecordText_of_all {t : Text} (h : t.all recordChar = true) : IsRecordText t :=
  List.all_eq_true.mp h

namespace IsRecordText

/-- A record is on one line. -/
theorem oneLine (h : IsRecordText r) : OneLine r := fun c hc => by
  rcases recordChar_cases (h c hc) with hw | rfl | rfl
  · exact isLineBreak_of_not_isSpace (isSpace_of_hostChar hw)
  · decide
  · decide

theorem newline_not_mem (h : IsRecordText r) : '\n' ∉ r := h.oneLine.not_mem

/-- A record has no comment. -/
theorem rowOf (h : IsRecordText r) : rowOf r = fields r := by
  rw [Dns.rowOf, bare_eq_self]
  intro hm
  rcases recordChar_cases (h _ hm) with hw | hw | hw
  · exact ne_semicolon_of_hostChar hw rfl
  · exact absurd hw (by decide)
  · exact absurd hw (by decide)

/-- **As a pattern**, no character of a record but the dot is special. -/
theorem plain_or_dot (h : IsRecordText r) : ∀ c ∈ r, Plain c ∨ c = '.' := fun c hc => by
  rcases recordChar_cases (h c hc) with hw | rfl | rfl
  · exact plain_or_dot_of_hostChar hw
  · exact Or.inl (by decide)
  · exact Or.inl (by decide)

end IsRecordText

variable {short octet entry : Text}

theorem isRecordText_aRecord (hs : IsWord short) (hi : IsWord ip) : IsRecordText (aRecord short ip) :=
  hs.text.append <| .cons (by decide) <| (isRecordText_of_all (by decide)).append <|
    .cons (by decide) hi.text

theorem isRecordText_ptrRecord (ho : IsWord octet) (hn : IsWord n) :
    IsRecordText (ptrRecord octet n) :=
  ho.text.append <| .cons (by decide) <| (isRecordText_of_all (by decide)).append <|
    .cons (by decide) hn.append_dot.text

theorem isRecordText_serviceRecord (he : IsWord entry) (hi : IsWord ip) :
    IsRecordText (serviceRecord entry ip) :=
  he.text.append <| .cons (by decide) <| (isRecordText_of_all (by decide)).append <|
    .cons (by decide) hi.text

theorem rowOf_aRecord (hs : IsWord short) (hi : IsWord ip) :
    rowOf (aRecord short ip) = [short, "IN".toList, "A".toList, ip] := by
  rw [(isRecordText_aRecord hs hi).rowOf, fields_aRecord hs.isField hi.isField]

/-- **What a pointer record says.** -/
theorem rowOf_ptrRecord (ho : IsWord octet) (hn : IsWord n) :
    rowOf (ptrRecord octet n) = [octet, "IN".toList, "PTR".toList, n ++ ['.']] := by
  rw [(isRecordText_ptrRecord ho hn).rowOf, ptrRecord, fields,
    fieldsBy_append_cons_sep isSpace_space, fieldsBy_append_cons_sep isSpace_space,
    fieldsBy_of_isField ho.isField, fieldsBy_of_isField hn.append_dot.isField]
  rfl

/-- **What a service record says.** -/
theorem rowOf_serviceRecord (he : IsWord entry) (hi : IsWord ip) :
    rowOf (serviceRecord entry ip) = [entry, "IN".toList, "A".toList, ip] := by
  rw [(isRecordText_serviceRecord he hi).rowOf, serviceRecord, fields,
    fieldsBy_append_cons_sep (by decide), fieldsBy_append_cons_sep isSpace_space,
    fieldsBy_of_isField he.isField, fieldsBy_of_isField hi.isField]
  rfl

end LabInABox.Dns
