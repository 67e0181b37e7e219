import LabInABox.Dns.Names
import LabInABox.Dns.Service

/-!
# Adding a node on every master

What `add_to_dns` leaves in the zone files of this host and of the masters that answer.

* A file is read by its rows: the fields of a line before its comment. An address record is a row
  that begins with the name and ends with `A` and the address, a pointer record one that begins with
  the octet and ends with `PTR` and the name. What stands between them, a class or a time, is free.
* This host compares lines. A master runs `sed` and a `grep -qF` that any line holding the text of
  the record answers.

Results:
* `addressAdded_dnsAddLine`, `pointerSet_local`: on this host the records are always written.
* `addressAdded_guardAdd_iff`, `pointerSet_guardAdd_iff`: on a master, exactly when `AddressReady`
  and `PointerReady` hold of its files.
* `addToDns_registers_iff`: the same for the whole operation.
-/

namespace LabInABox.Dns

open Text

namespace DnsService

/-! ## What the records say -/

/-- An address record: a name, what stands before the type, and the address. -/
def addressRow (name : Text) (mid : List Text) (ip : Text) : List Text :=
  name :: (mid ++ ["A".toList, ip])

/-- A pointer record: an octet, what stands before the type, and the name. -/
def pointerRow (octet : Text) (mid : List Text) (target : Text) : List Text :=
  octet :: (mid ++ ["PTR".toList, target])

/-- A forward zone gained the address of a name, and lost no address of another. -/
structure AddressAdded (short ip t t' : Text) : Prop where
  held : addressRow short ["IN".toList] ip ∈ rows t'
  others : ∀ name mid ip', name ≠ short → addressRow name mid ip' ∈ rows t →
    addressRow name mid ip' ∈ rows t'

/-- A reverse zone names a target for an octet and no other, and lost no pointer of another octet. -/
structure PointerSet (octet target t t' : Text) : Prop where
  held : pointerRow octet ["IN".toList] target ∈ rows t'
  only : ∀ mid target', pointerRow octet mid target' ∈ rows t' → target' = target
  others : ∀ octet' mid target', octet' ≠ octet → pointerRow octet' mid target' ∈ rows t →
    pointerRow octet' mid target' ∈ rows t'

/-- What `add_to_dns` is for, on the servers `ss`. -/
def Registered (z z' : Zones) (ss : List Server) (vmName myip mydomain mynetReverse : Text) : Prop :=
  ∀ s ∈ ss,
    AddressAdded (shortName vmName) myip (z.text (s, forwardFile mydomain))
      (z'.text (s, forwardFile mydomain)) ∧
    (mynetReverse ≠ [] → PointerSet (lastOctet myip) (vmName ++ ['.'])
      (z.text (s, reverseFile mynetReverse)) (z'.text (s, reverseFile mynetReverse)))

/-! ## The condition on a master -/

/-- **The forward file of a master takes the address record**: a line that holds the text of the
record is a line that says it, and a record that is appended gets a line of its own. -/
structure AddressReady (short ip t : Text) : Prop where
  guard : aRecord short ip <:+: t → addressRow short ["IN".toList] ip ∈ rows t
  room : aRecord short ip <:+: t ∨ Blank (openLine t)

/-- A line `sed` finds an octet and a blank at the beginning of. -/
def Leads (octet l : Text) : Prop := ∃ c u, l = octet ++ c :: u ∧ posixSpace c = true

/-- A line of a file that `sed` leaves when it drops an octet. -/
def Stays (octet t l : Text) : Prop := l ∈ lines t ∧ ¬ Leads octet l

/-- **The reverse file of a master takes the pointer record**: of the lines `sed` leaves, one that
holds the text of the record is matched by one that says it, none names another target for the
octet, and each other octet is still pointed as it was. -/
structure PointerReady (octet vmName t : Text) : Prop where
  guard : ∀ l, Stays octet t l → ptrRecord octet vmName <:+: l →
    ∃ l', Stays octet t l' ∧ pointerRow octet ["IN".toList] (vmName ++ ['.']) ∈ rows l'
  room : (∃ l, Stays octet t l ∧ ptrRecord octet vmName <:+: l) ∨
    Blank (openLine (dropOctet octet t))
  only : ∀ l, Stays octet t l → ∀ mid target,
    pointerRow octet mid target ∈ rows l → target = vmName ++ ['.']
  others : ∀ octet' mid target, octet' ≠ octet → pointerRow octet' mid target ∈ rows t →
    ∃ l, Stays octet t l ∧ pointerRow octet' mid target ∈ rows l

/-- The files of every master take the records. -/
def Ready (z : Zones) (ms : List Text) (vmName myip mydomain mynetReverse : Text) : Prop :=
  ∀ m ∈ ms,
    AddressReady (shortName vmName) myip (z.text (some m, forwardFile mydomain)) ∧
    (mynetReverse ≠ [] →
      PointerReady (lastOctet myip) vmName (z.text (some m, reverseFile mynetReverse)))

/-! ## A forward file -/

variable {short ip octet vmName t t' t'' : Text} {ρ : List Text}

theorem AddressAdded.after (h : AddressAdded short ip t' t'') (hsub : ∀ ρ ∈ rows t, ρ ∈ rows t') :
    AddressAdded short ip t t'' :=
  ⟨h.held, fun name mid ip' hne hρ => h.others name mid ip' hne (hsub _ hρ)⟩

theorem AddressAdded.then (h : AddressAdded short ip t t') (hsub : ∀ ρ ∈ rows t', ρ ∈ rows t'') :
    AddressAdded short ip t t'' :=
  ⟨hsub _ h.held, fun name mid ip' hne hρ => hsub _ (h.others name mid ip' hne hρ)⟩

theorem rowOf_aRecord_ne_nil (hs : IsWord short) (hi : IsWord ip) : rowOf (aRecord short ip) ≠ [] := by
  rw [rowOf_aRecord hs hi]
  exact List.cons_ne_nil _ _

/-- **On this host** the address is always written. -/
theorem addressAdded_dnsAddLine (hs : IsWord short) (hi : IsWord ip) (t : Text) :
    AddressAdded short ip t (dnsAddLine (aRecord short ip) t) := by
  have hrows : ∀ ρ, ρ ∈ rows (dnsAddLine (aRecord short ip) t) ↔ ρ ∈ rows t ∨ ρ = _ := fun ρ =>
    mem_rows_dnsAddLine (isRecordText_aRecord hs hi).oneLine (rowOf_aRecord_ne_nil hs hi)
  refine ⟨(hrows _).mpr (Or.inr ?_), fun name mid ip' _ hρ => (hrows _).mpr (Or.inl hρ)⟩
  rw [rowOf_aRecord hs hi]
  rfl

theorem mem_rows_guardAdd_aRecord (hs : IsWord short) (hi : IsWord ip)
    (hroom : aRecord short ip <:+: t ∨ Blank (openLine t)) :
    ρ ∈ rows (guardAdd (aRecord short ip) t) ↔
      ρ ∈ rows t ∨ (¬ aRecord short ip <:+: t ∧ ρ = addressRow short ["IN".toList] ip) := by
  rw [mem_rows_guardAdd (isRecordText_aRecord hs hi).oneLine (rowOf_aRecord_ne_nil hs hi)
    hroom.resolve_left, rowOf_aRecord hs hi]
  rfl

/-- **On a master** it is written when the file is ready. -/
theorem addressAdded_guardAdd (hs : IsWord short) (hi : IsWord ip) (h : AddressReady short ip t) :
    AddressAdded short ip t (guardAdd (aRecord short ip) t) := by
  refine ⟨(mem_rows_guardAdd_aRecord hs hi h.room).mpr ?_, fun name mid ip' _ hρ =>
    (mem_rows_guardAdd_aRecord hs hi h.room).mpr (Or.inl hρ)⟩
  by_cases hin : aRecord short ip <:+: t
  · exact Or.inl (h.guard hin)
  · exact Or.inr ⟨hin, rfl⟩

/-- **And only then**, when the last line of the file is ended. -/
theorem addressAdded_guardAdd_iff (hs : IsWord short) (hi : IsWord ip) (hb : Blank (openLine t)) :
    AddressAdded short ip t (guardAdd (aRecord short ip) t) ↔ AddressReady short ip t := by
  refine ⟨fun h => ⟨fun hin => ?_, Or.inr hb⟩, addressAdded_guardAdd hs hi⟩
  rcases (mem_rows_guardAdd_aRecord hs hi (Or.inr hb)).mp h.held with hρ | ⟨hnot, _⟩
  · exact hρ
  · exact absurd hin hnot

/-! ## A reverse file -/

theorem PointerSet.after {target : Text} (h : PointerSet octet target t' t'')
    (hsub : ∀ ρ ∈ rows t, ρ ∈ rows t') : PointerSet octet target t t'' :=
  ⟨h.held, h.only, fun o mid target' hne hρ => h.others o mid target' hne (hsub _ hρ)⟩

theorem rowOf_ptrRecord_eq (ho : IsWord octet) (hn : IsWord vmName) :
    rowOf (ptrRecord octet vmName) = pointerRow octet ["IN".toList] (vmName ++ ['.']) :=
  rowOf_ptrRecord ho hn

theorem rowOf_ptrRecord_ne_nil (ho : IsWord octet) (hn : IsWord vmName) :
    rowOf (ptrRecord octet vmName) ≠ [] := by
  rw [rowOf_ptrRecord ho hn]
  exact List.cons_ne_nil _ _

theorem target_eq_of_pointerRow_eq {o o' target target' : Text} {mid mid' : List Text}
    (h : pointerRow o mid target = pointerRow o' mid' target') : target = target' := by
  have hlast : ∀ (o target : Text) (mid : List Text),
      (pointerRow o mid target).getLast? = some target := fun o target mid => by
    rw [pointerRow, List.append_cons, ← List.cons_append, List.getLast?_concat]
  have := congrArg List.getLast? h
  rw [hlast, hlast] at this
  exact Option.some.inj this

/-- The line of a pointer record is a line of its octet, a comment after it or not. -/
theorem isOctetLine_iff {o target l : Text} {mid : List Text} (h : rowOf l = pointerRow o mid target) :
    isOctetLine octet l = true ↔ o = octet := by
  have hhead : (fields l).head? = some o := by
    have hsplit : bare l ++ l.dropWhile (· != ';') = l := List.takeWhile_append_dropWhile
    have hlen : 1 < (fieldsBy isSpace (bare l)).length := by
      change 1 < (rowOf l).length
      rw [h]
      simp [pointerRow]
    rw [← hsplit, fields, head?_fieldsBy_append hlen]
    change (rowOf l).head? = some o
    rw [h]
    rfl
  rw [isOctetLine, beq_iff_eq]
  cases hf : fields l with
  | nil =>
    rw [hf] at hhead
    exact absurd hhead (by simp)
  | cons f fs =>
    rw [hf] at hhead
    obtain rfl := Option.some.inj hhead
    simp

/-- **On this host** the pointer is always written, and is the only one of its octet. -/
theorem pointerSet_local (ho : IsWord octet) (hn : IsWord vmName) (z : Zones) (k : ZoneKey) :
    PointerSet octet (vmName ++ ['.']) (z.text k) (dnsAddLine (ptrRecord octet vmName)
      ((z.edit k (dropMatched (isOctetLine octet))).text k)) := by
  have hrows : ∀ ρ, ρ ∈ rows (dnsAddLine (ptrRecord octet vmName)
      ((z.edit k (dropMatched (isOctetLine octet))).text k)) ↔
      (∃ l ∈ splitlines (z.text k), isOctetLine octet l = false ∧ ρ ≠ [] ∧ rowOf l = ρ) ∨
        ρ = pointerRow octet ["IN".toList] (vmName ++ ['.']) := fun ρ => by
    rw [mem_rows_dnsAddLine (isRecordText_ptrRecord ho hn).oneLine (rowOf_ptrRecord_ne_nil ho hn),
      mem_rows_edit_dropMatched, rowOf_ptrRecord_eq ho hn]
  refine ⟨(hrows _).mpr (Or.inr rfl), fun mid target hρ => ?_, fun o mid target hne hρ => ?_⟩
  · rcases (hrows _).mp hρ with ⟨l, _, hkeep, _, hl⟩ | heq
    · rw [(isOctetLine_iff hl).mpr rfl] at hkeep
      exact absurd hkeep (by simp)
    · exact target_eq_of_pointerRow_eq heq
  · obtain ⟨l, hl, hne', hrow⟩ := mem_rows.mp hρ
    refine (hrows _).mpr (Or.inl ⟨l, hl, ?_, hne', hrow⟩)
    rw [Bool.eq_false_iff]
    exact fun h => hne ((isOctetLine_iff hrow).mp h)

/-! ## A reverse file on a master -/

theorem plain_of_isDigit {c : Char} (h : c.isDigit = true) : Plain c := by
  rcases plain_or_dot_of_hostChar (hostChar_of_isDigit h) with hp | rfl
  · exact hp
  · exact absurd h (by decide)

theorem stays_iff (ho : ∀ c ∈ octet, c.isDigit = true) {l : Text} :
    Stays octet t l ↔ l ∈ lines (dropOctet octet t) := by
  rw [dropOctet, sedDrop, lines_sedFilter, List.mem_filter, Stays]
  have hsel := selects_word_iff (l := l) fun c hc => plain_of_isDigit (ho c hc)
  rw [Leads, ← hsel]
  simp

theorem mem_rows_dropOctet (ho : ∀ c ∈ octet, c.isDigit = true) :
    ρ ∈ rows (dropOctet octet t) ↔ ∃ l, Stays octet t l ∧ ρ ∈ rows l := by
  rw [mem_rows_iff_lines]
  simp only [stays_iff ho]

theorem infix_dropOctet_iff (ho : ∀ c ∈ octet, c.isDigit = true) {r : Text} (hne : r ≠ [])
    (hr : '\n' ∉ r) : r <:+: dropOctet octet t ↔ ∃ l, Stays octet t l ∧ r <:+: l := by
  rw [← exists_mem_lines_infix_iff hne hr]
  simp only [stays_iff ho]

theorem ptrRecord_ne_nil (octet vmName : Text) : ptrRecord octet vmName ≠ [] := by
  simp [ptrRecord]

section Master

variable (ho : IsWord octet) (hd : ∀ c ∈ octet, c.isDigit = true) (hn : IsWord vmName)

include ho hd hn

theorem mem_rows_guardAdd_ptrRecord
    (hroom : (∃ l, Stays octet t l ∧ ptrRecord octet vmName <:+: l) ∨
      Blank (openLine (dropOctet octet t))) :
    ρ ∈ rows (guardAdd (ptrRecord octet vmName) (dropOctet octet t)) ↔
      (∃ l, Stays octet t l ∧ ρ ∈ rows l) ∨
        ((¬ ∃ l, Stays octet t l ∧ ptrRecord octet vmName <:+: l) ∧
          ρ = pointerRow octet ["IN".toList] (vmName ++ ['.'])) := by
  have htext := isRecordText_ptrRecord ho hn
  rw [← infix_dropOctet_iff hd (ptrRecord_ne_nil _ _) htext.newline_not_mem] at hroom ⊢
  rw [mem_rows_guardAdd htext.oneLine (rowOf_ptrRecord_ne_nil ho hn) hroom.resolve_left,
    mem_rows_dropOctet hd, rowOf_ptrRecord_eq ho hn]

/-- **On a master** the pointer is written, alone, when the file is ready. -/
theorem pointerSet_guardAdd (h : PointerReady octet vmName t) :
    PointerSet octet (vmName ++ ['.']) t
      (guardAdd (ptrRecord octet vmName) (dropOctet octet t)) := by
  have hrows := fun ρ => mem_rows_guardAdd_ptrRecord ho hd hn (ρ := ρ) h.room
  refine ⟨(hrows _).mpr ?_, fun mid target hρ => ?_, fun o mid target hne hρ =>
    (hrows _).mpr (Or.inl (h.others o mid target hne hρ))⟩
  · by_cases hin : ∃ l, Stays octet t l ∧ ptrRecord octet vmName <:+: l
    · obtain ⟨l, hl, hsub⟩ := hin
      exact Or.inl (h.guard l hl hsub)
    · exact Or.inr ⟨hin, rfl⟩
  · rcases (hrows _).mp hρ with ⟨l, hl, hrow⟩ | ⟨_, heq⟩
    · exact h.only l hl mid target hrow
    · exact target_eq_of_pointerRow_eq heq

/-- **And only then**, when the last line of the file is ended. -/
theorem pointerSet_guardAdd_iff (hb : Blank (openLine t)) :
    PointerSet octet (vmName ++ ['.']) t
      (guardAdd (ptrRecord octet vmName) (dropOctet octet t)) ↔ PointerReady octet vmName t := by
  refine ⟨fun h => ?_, pointerSet_guardAdd ho hd hn⟩
  have hb' : Blank (openLine (dropOctet octet t)) := blank_openLine_sedFilter hb
  have hrows := fun ρ => mem_rows_guardAdd_ptrRecord ho hd hn (ρ := ρ) (Or.inr hb')
  refine ⟨fun l hl hin => ?_, Or.inr hb', fun l hl mid target hρ =>
    h.only mid target ((hrows _).mpr (Or.inl ⟨l, hl, hρ⟩)), fun o mid target hne hρ => ?_⟩
  · rcases (hrows _).mp h.held with hrow | ⟨hnot, _⟩
    · exact hrow
    · exact absurd ⟨l, hl, hin⟩ hnot
  · rcases (hrows _).mp (h.others o mid target hne hρ) with hrow | ⟨_, heq⟩
    · exact hrow
    · exact absurd (List.cons.inj heq).1 hne

end Master

/-! ## A master listed twice -/

/-- A line put after the beginning of another does not lead with an octet, if that one does not. -/
theorem not_leads_append (ho : octet ≠ []) (hd : ∀ c ∈ octet, c.isDigit = true) {u : Text}
    (hu : u ≠ []) (h : ¬ Leads octet u) : ¬ Leads octet (u ++ ptrRecord octet vmName) := by
  rintro ⟨c, v, he, hc⟩
  have hdigit : c ∉ octet := fun hm => by
    have hs := isSpace_of_hostChar (hostChar_of_isDigit (hd c hm))
    rw [isSpace_of_posixSpace hc] at hs
    exact absurd hs (by simp)
  rcases List.append_eq_append_iff.mp he with ⟨a, hua, hp⟩ | ⟨b, rfl, hp⟩
  · -- the blank would stand where the record has its octet
    have hlen : octet.length = u.length + a.length := by rw [hua, List.length_append]
    have hpos := List.length_pos_of_ne_nil hu
    rw [ptrRecord] at hp
    rcases List.append_eq_append_iff.mp hp with ⟨a', rfl, hv⟩ | ⟨b', hb, hv⟩
    · rw [List.length_append] at hlen
      omega
    · cases b' with
      | nil =>
        rw [hb, List.append_nil] at hlen
        omega
      | cons x xs =>
        obtain ⟨rfl, -⟩ := List.cons.inj hv
        exact hdigit (hb ▸ List.mem_append_right _ List.mem_cons_self)
  · cases b with
    | nil =>
      have hhead := congrArg List.head? hp
      cases octet with
      | nil => exact ho rfl
      | cons x xs =>
        obtain rfl := Option.some.inj hhead
        exact hdigit List.mem_cons_self
    | cons x xs =>
      obtain ⟨rfl, -⟩ := List.cons.inj hp
      exact h ⟨_, _, rfl, hc⟩

/-- Of a record put at the end of what `sed` left, a second `sed` leaves all or nothing. -/
theorem dropOctet_appendLine (ho : octet ≠ []) (hd : ∀ c ∈ octet, c.isDigit = true)
    (hr : '\n' ∉ ptrRecord octet vmName) (t : Text) :
    dropOctet octet (appendLine (dropOctet octet t) (ptrRecord octet vmName)) =
      appendLine (dropOctet octet t) (ptrRecord octet vmName) ∨
    dropOctet octet (appendLine (dropOctet octet t) (ptrRecord octet vmName)) =
      dropOctet octet t := by
  have hsel : ∀ l, selects ('^' :: (octet ++ spaceClass)) l = true ↔ Leads octet l := fun l =>
    selects_word_iff fun c hc => plain_of_isDigit (hd c hc)
  obtain ⟨ht, hls, hu⟩ := cutLines_spec (dropOctet octet t)
  have hcut := cutLines_sedFilter (fun l => !selects ('^' :: (octet ++ spaceClass)) l) t
  change cutLines (dropOctet octet t) = _ at hcut
  rcases hcl : cutLines (dropOctet octet t) with ⟨ls, u⟩
  rw [hcl] at ht hls hu hcut
  dsimp only at ht hls hu
  obtain ⟨hls', hu'⟩ := Prod.mk.inj hcut
  have hline : '\n' ∉ u ++ ptrRecord octet vmName := fun hm =>
    (List.mem_append.mp hm).elim hu hr
  have happ : appendLine (dropOctet octet t) (ptrRecord octet vmName) =
      unlines (ls ++ [u ++ ptrRecord octet vmName]) := by
    rw [ht, appendLine, unlines_append, unlines_cons, unlines_nil]
    simp
  have hkept : ls.filter (fun l => !selects ('^' :: (octet ++ spaceClass)) l) = ls := by
    rw [hls', List.filter_filter]
    simp only [Bool.and_self]
  have hended : Ended (unlines (ls ++ [u ++ ptrRecord octet vmName])) := ended_unlines fun l hl =>
    (List.mem_append.mp hl).elim (hls l) fun hl => List.mem_singleton.mp hl ▸ hline
  have hdrop : dropOctet octet (unlines (ls ++ [u ++ ptrRecord octet vmName])) =
      unlines (ls ++ [u ++ ptrRecord octet vmName].filter
        fun l => !selects ('^' :: (octet ++ spaceClass)) l) := by
    rw [dropOctet, sedDrop, sedFilter_of_ended hended, lines_unlines fun l hl =>
      (List.mem_append.mp hl).elim (hls l) fun hl => List.mem_singleton.mp hl ▸ hline,
      List.filter_append, hkept]
  rw [happ, hdrop]
  by_cases hlead : Leads octet (u ++ ptrRecord octet vmName)
  · -- then the record stands on a line of its own
    have hnil : u = [] := by
      by_contra hne
      have hstay : ¬ Leads octet u := fun hl => by
        have hsu := (hsel u).mpr hl
        split at hu'
        · rename_i hk
          rw [← hu', hsu] at hk
          exact absurd hk (by simp)
        · exact hne hu'
      exact not_leads_append ho hd hne hstay hlead
    right
    rw [List.filter_cons_of_neg (by simp [(hsel _).mpr hlead]), List.filter_nil, List.append_nil, ht,
      hnil, List.append_nil]
  · left
    have hns : selects ('^' :: (octet ++ spaceClass)) (u ++ ptrRecord octet vmName) = false :=
      Bool.eq_false_iff.mpr fun h => hlead ((hsel _).mp h)
    rw [List.filter_cons_of_pos (by simp [hns]), List.filter_nil]

/-- **The write of a pointer is the same when it is made twice.** -/
theorem guardAdd_dropOctet_idem (ho : octet ≠ []) (hd : ∀ c ∈ octet, c.isDigit = true)
    (hr : '\n' ∉ ptrRecord octet vmName) (t : Text) :
    guardAdd (ptrRecord octet vmName) (dropOctet octet
      (guardAdd (ptrRecord octet vmName) (dropOctet octet t))) =
      guardAdd (ptrRecord octet vmName) (dropOctet octet t) := by
  have hne := ptrRecord_ne_nil octet vmName
  have hdrop : dropOctet octet (dropOctet octet t) = dropOctet octet t := sedFilter_idem _ _
  by_cases hin : grepF (ptrRecord octet vmName) (dropOctet octet t) = true
  · have hadd : guardAdd (ptrRecord octet vmName) (dropOctet octet t) = dropOctet octet t := by
      rw [guardAdd, if_pos hin]
    rw [hadd, hdrop, hadd]
  · have hadd : guardAdd (ptrRecord octet vmName) (dropOctet octet t) =
        appendLine (dropOctet octet t) (ptrRecord octet vmName) := by rw [guardAdd, if_neg hin]
    rcases dropOctet_appendLine ho hd hr t with h | h
    · rw [hadd, h, ← hadd, guardAdd_idem hne hr]
    · rw [hadd, h, hadd]

/-! ## The whole operation -/

variable {e : Engines} {loads : Server → Text → Option Text} {reachable : Text → Bool}
  {myip mydomain mynetReverse : Text} {remoteDnsServers : List Text} {z : Zones} {d : DnsService}

/-- What `add_to_dns` makes of a file of a master. -/
def masterFile (vmName myip mydomain mynetReverse fileName t : Text) : Text :=
  if mynetReverse ≠ [] ∧ fileName = reverseFile mynetReverse then
    guardAdd (ptrRecord (lastOctet myip) vmName) (dropOctet (lastOctet myip) t)
  else if fileName = forwardFile mydomain then guardAdd (aRecord (shortName vmName) myip) t
  else t

theorem addRemote_text (z : Zones) (m : Text) (k : ZoneKey) :
    (addRemote e vmName myip mydomain mynetReverse false z m).text k =
      if k.1 = some m then masterFile vmName myip mydomain mynetReverse k.2 (z.text k)
      else z.text k := by
  obtain ⟨s, f⟩ := k
  have hne : forwardFile mydomain ≠ reverseFile mynetReverse := forwardFile_ne_reverseFile _ _
  have hdrop : dropOctet (lastOctet myip) [] = [] := sedFilter_nil _
  unfold addRemote masterFile
  by_cases hs : s = some m
  · subst hs
    by_cases hrev : mynetReverse = []
    · simp only [hrev, if_true, ne_eq, not_true_eq_false, false_and, if_false,
        Bool.false_eq_true, remoteDnsAdd_text, Prod.mk.injEq, true_and]
    · simp only [hrev, if_false, if_true, ne_eq, not_false_eq_true, true_and, Bool.false_eq_true,
        remoteDnsAdd_text, edit_text hdrop, Prod.mk.injEq]
      by_cases hf : f = reverseFile mynetReverse
      · subst hf
        rw [if_pos rfl, if_pos rfl, if_neg hne.symm, if_pos rfl]
      · rw [if_neg hf, if_neg hf, if_neg hf]
  · have hk : ∀ f', (s, f) ≠ (some m, f') := fun f' h => hs (Prod.mk.inj h).1
    by_cases hrev : mynetReverse = []
    · simp only [hrev, if_true, Bool.false_eq_true, if_false, remoteDnsAdd_text, hs, hk]
    · simp only [hrev, Bool.false_eq_true, if_false, remoteDnsAdd_text, edit_text hdrop, hs, hk]

theorem masterFile_forward (t : Text) :
    masterFile vmName myip mydomain mynetReverse (forwardFile mydomain) t =
      guardAdd (aRecord (shortName vmName) myip) t := by
  rw [masterFile, if_neg fun h => forwardFile_ne_reverseFile _ _ h.2, if_pos rfl]

theorem masterFile_idem (hn : IsHostName vmName) (hi : IsIpv4 myip) (f t : Text) :
    masterFile vmName myip mydomain mynetReverse f
      (masterFile vmName myip mydomain mynetReverse f t) =
      masterFile vmName myip mydomain mynetReverse f t := by
  unfold masterFile
  split
  · exact guardAdd_dropOctet_idem (lastOctet_digits hi).1 (lastOctet_digits hi).2
      (isRecordText_ptrRecord hi.octet hn.word).newline_not_mem t
  · split
    · have hr := isRecordText_aRecord hn.short hi.word
      have hne : aRecord (shortName vmName) myip ≠ [] := by simp [aRecord]
      exact guardAdd_idem hne hr.newline_not_mem t
    · rfl

/-- The files after the masters and this host were written to. -/
def registered (e : Engines) (ms : List Text) (vmName myip mydomain mynetReverse : Text) (z : Zones) :
    Zones :=
  addLocal vmName myip mydomain mynetReverse false
    (ms.foldl (addRemote e vmName myip mydomain mynetReverse false) z)

theorem addLocal_text_of_some (m f : Text) :
    (addLocal vmName myip mydomain mynetReverse false z).text (some m, f) = z.text (some m, f) := by
  have hk : ∀ f', ((some m, f) : ZoneKey) ≠ (none, f') := fun f' h => by cases (Prod.mk.inj h).1
  unfold addLocal
  by_cases hrev : mynetReverse = []
  · simp only [hrev, if_true, Bool.false_eq_true, if_false]
    exact Zones.text_put_of_ne _ _ (hk _)
  · simp only [hrev, Bool.false_eq_true, if_false]
    rw [Zones.text_put_of_ne _ _ (hk _), Zones.text_put_of_ne _ _ (hk _), edit_text_of_ne _ (hk _)]

theorem addLocal_text_forward :
    (addLocal vmName myip mydomain mynetReverse false z).text (none, forwardFile mydomain) =
      dnsAddLine (aRecord (shortName vmName) myip) (z.text (none, forwardFile mydomain)) := by
  have hk : ((none, forwardFile mydomain) : ZoneKey) ≠ (none, reverseFile mynetReverse) := fun h =>
    forwardFile_ne_reverseFile _ _ (Prod.mk.inj h).2
  unfold addLocal
  by_cases hrev : mynetReverse = []
  · simp only [hrev, if_true, Bool.false_eq_true, if_false]
    exact Zones.text_put_self _ _ _
  · simp only [hrev, Bool.false_eq_true, if_false]
    rw [Zones.text_put_of_ne _ _ hk, Zones.text_put_self, edit_text_of_ne _ hk]

theorem addLocal_text_reverse (hrev : mynetReverse ≠ []) :
    (addLocal vmName myip mydomain mynetReverse false z).text (none, reverseFile mynetReverse) =
      dnsAddLine (ptrRecord (lastOctet myip) vmName)
        ((z.edit (none, reverseFile mynetReverse)
          (dropMatched (isOctetLine (lastOctet myip)))).text (none, reverseFile mynetReverse)) := by
  have hk : ((none, reverseFile mynetReverse) : ZoneKey) ≠ (none, forwardFile mydomain) := fun h =>
    forwardFile_ne_reverseFile _ _ (Prod.mk.inj h).2.symm
  unfold addLocal
  simp only [hrev, Bool.false_eq_true, if_false]
  rw [Zones.text_put_self, Zones.text_put_of_ne _ _ hk]

section Operation

variable (hn : IsHostName vmName) (hi : IsIpv4 myip)

include hn hi

theorem masters_text (ms : List Text) (z : Zones) (k : ZoneKey) :
    (ms.foldl (addRemote e vmName myip mydomain mynetReverse false) z).text k =
      if k.1 ∈ ms.map some then masterFile vmName myip mydomain mynetReverse k.2 (z.text k)
      else z.text k :=
  foldl_masters_text (I := fun _ => True) addRemote_text (fun _ _ _ => trivial)
    (fun f t _ => masterFile_idem hn hi f t) ms z k trivial

theorem registered_text_master {ms : List Text} {m : Text} (hm : m ∈ ms) (f : Text) :
    (registered e ms vmName myip mydomain mynetReverse z).text (some m, f) =
      masterFile vmName myip mydomain mynetReverse f (z.text (some m, f)) := by
  rw [registered, addLocal_text_of_some, masters_text hn hi, if_pos (List.mem_map_of_mem hm)]

theorem masters_text_none (ms : List Text) (f : Text) :
    (ms.foldl (addRemote e vmName myip mydomain mynetReverse false) z).text (none, f) =
      z.text (none, f) := by
  rw [masters_text hn hi, if_neg (by simp)]

/-- **This host holds the records**, whatever its files were. -/
theorem registered_local (ms : List Text) :
    Registered z (registered e ms vmName myip mydomain mynetReverse z) [none] vmName myip mydomain
      mynetReverse := by
  intro s hs
  obtain rfl := List.mem_singleton.mp hs
  constructor
  · rw [registered, addLocal_text_forward, masters_text_none hn hi]
    exact addressAdded_dnsAddLine hn.short hi.word _
  · intro hrev
    rw [registered, addLocal_text_reverse hrev, ← masters_text_none hn hi ms]
    exact pointerSet_local hi.octet hn.word _ _

/-- **A master holds them** when its files are ready. -/
theorem registered_of_ready {ms : List Text} (h : Ready z ms vmName myip mydomain mynetReverse) :
    Registered z (registered e ms vmName myip mydomain mynetReverse z) (none :: ms.map some) vmName
      myip mydomain mynetReverse := by
  intro s hs
  rcases List.mem_cons.mp hs with rfl | hs
  · exact registered_local hn hi ms none List.mem_cons_self
  · obtain ⟨m, hm, rfl⟩ := List.mem_map.mp hs
    rw [registered_text_master hn hi hm, registered_text_master hn hi hm, masterFile_forward]
    refine ⟨addressAdded_guardAdd hn.short hi.word (h m hm).1, fun hrev => ?_⟩
    rw [masterFile, if_pos ⟨hrev, rfl⟩]
    exact pointerSet_guardAdd hi.octet (lastOctet_digits hi).2 hn.word ((h m hm).2 hrev)

/-- **And only then**, when the last line of each of its files is ended. -/
theorem ready_of_registered {ms : List Text}
    (hb : ∀ m ∈ ms, ∀ f ∈ zoneFiles mydomain mynetReverse, Blank (openLine (z.text (some m, f))))
    (h : Registered z (registered e ms vmName myip mydomain mynetReverse z) (none :: ms.map some)
      vmName myip mydomain mynetReverse) : Ready z ms vmName myip mydomain mynetReverse := by
  intro m hm
  obtain ⟨hfwd, hrev⟩ := h (some m) (List.mem_cons_of_mem _ (List.mem_map_of_mem hm))
  rw [registered_text_master hn hi hm, masterFile_forward] at hfwd
  refine ⟨(addressAdded_guardAdd_iff hn.short hi.word (hb m hm _ List.mem_cons_self)).mp hfwd,
    fun hne => ?_⟩
  have hp := hrev hne
  rw [registered_text_master hn hi hm, masterFile, if_pos ⟨hne, rfl⟩] at hp
  have hf : reverseFile mynetReverse ∈ zoneFiles mydomain mynetReverse := by
    rw [zoneFiles, if_neg hne]
    exact List.mem_cons_of_mem _ (List.mem_singleton_self _)
  exact (pointerSet_guardAdd_iff hi.octet (lastOctet_digits hi).2 hn.word (hb m hm _ hf)).mp hp

end Operation

/-! ## When a zone had to be created -/

/-- The last line of each file is ended, or blank. -/
def Finished (z : Zones) (ss : List Server) (files : List Text) : Prop :=
  ∀ s ∈ ss, ∀ f ∈ files, Blank (openLine (z.text (s, f)))

theorem blank_nil : Blank [] := fun _ hc => absurd hc List.not_mem_nil

theorem blank_openLine_dnsAddLine {r : Text} (h : Blank (openLine t)) :
    Blank (openLine (dnsAddLine r t)) := by
  unfold dnsAddLine
  split
  · exact h
  · rw [← List.append_nil (unlines _), openLine_unlines_append]
    exact blank_nil

theorem blank_openLine_edit_dropMatched (z : Zones) (k : ZoneKey) (matcher : Text → Bool) :
    Blank (openLine ((z.edit k (dropMatched matcher)).text k)) := by
  unfold Zones.edit
  cases hz : z k with
  | none =>
    have ht : z.text k = [] := by rw [Zones.text, hz]; rfl
    change Blank (openLine (z.text k))
    rw [ht]
    exact blank_nil
  | some t =>
    dsimp only
    rw [Zones.text_put_self, dropMatched, openLine_append_newline]
    exact blank_nil

theorem finished_registered (hn : IsHostName vmName) (hi : IsIpv4 myip) {ms : List Text}
    (h : Finished z (none :: ms.map some) (zoneFiles mydomain mynetReverse)) :
    Finished (registered e ms vmName myip mydomain mynetReverse z) (none :: ms.map some)
      (zoneFiles mydomain mynetReverse) := by
  intro s hs f hf
  have hopen := h s hs f hf
  rcases List.mem_cons.mp hs with rfl | hs
  · rw [zoneFiles, List.mem_cons] at hf
    rcases hf with rfl | hf
    · rw [registered, addLocal_text_forward, masters_text_none hn hi]
      exact blank_openLine_dnsAddLine hopen
    · split at hf
      · exact absurd hf List.not_mem_nil
      · rename_i hrev
        obtain rfl := List.mem_singleton.mp hf
        rw [registered, addLocal_text_reverse hrev]
        exact blank_openLine_dnsAddLine (blank_openLine_edit_dropMatched _ _ _)
  · obtain ⟨m, hm, rfl⟩ := List.mem_map.mp hs
    rw [registered_text_master hn hi hm, masterFile]
    split
    · exact blank_openLine_guardAdd (blank_openLine_sedFilter hopen)
    · split
      · exact blank_openLine_guardAdd hopen
      · exact hopen

/-- **The synchronisation keeps what was registered on every server.** -/
theorem registered_syncZone {z' : Zones}
    (h : Registered z z' (servers reachable remoteDnsServers) vmName myip mydomain mynetReverse)
    (hb : Finished z' (servers reachable remoteDnsServers) (zoneFiles mydomain mynetReverse)) :
    Registered z (syncZone z' loads reachable mydomain mynetReverse remoteDnsServers).2
      (servers reachable remoteDnsServers) vmName myip mydomain mynetReverse := by
  intro s hs
  have hfwd : forwardFile mydomain ∈ zoneFiles mydomain mynetReverse := List.mem_cons_self
  refine ⟨(h s hs).1.then fun ρ hρ => (rows_syncZone hfwd hs (hb s hs _ hfwd)).1 hρ, fun hne => ?_⟩
  have hrev : reverseFile mynetReverse ∈ zoneFiles mydomain mynetReverse := by
    rw [zoneFiles, if_neg hne]
    exact List.mem_cons_of_mem _ (List.mem_singleton_self _)
  have hrows : ∀ ρ,
      (ρ ∈ rows (z'.text (s, reverseFile mynetReverse)) → ρ ∈ rows ((syncZone z' loads reachable
        mydomain mynetReverse remoteDnsServers).2.text (s, reverseFile mynetReverse))) ∧
      (ρ ∈ rows ((syncZone z' loads reachable mydomain mynetReverse remoteDnsServers).2.text
        (s, reverseFile mynetReverse)) → ∃ s' ∈ servers reachable remoteDnsServers,
          ρ ∈ rows (z'.text (s', reverseFile mynetReverse))) :=
    fun ρ => rows_syncZone hrev hs (hb s hs _ hrev)
  have hp := (h s hs).2 hne
  refine ⟨(hrows _).1 hp.held, fun mid target hρ => ?_, fun o mid target ho hρ =>
    (hrows _).1 (hp.others o mid target ho hρ)⟩
  obtain ⟨s', hs', hρ'⟩ := (hrows _).2 hρ
  exact ((h s' hs').2 hne).only mid target hρ'

/-- **Adding a node, on every master.** When the files of the masters are ready, and end in a line
break if a zone had to be created, every server holds the records and no other record is lost. When
no zone had to be created and every file ends in a line break, that is the only case. -/
theorem addToDns_registers_iff (hn : IsHostName vmName) (hi : IsIpv4 myip) (e : Engines)
    (loads : Server → Text → Option Text) (reachable : Text → Bool)
    (mydomain mynetReverse : Text) (remoteDnsServers : List Text) (d : DnsService) :
    let r := d.ensureZones (servers reachable remoteDnsServers) mydomain mynetReverse
    let d' := addToDns e loads reachable vmName myip mydomain mynetReverse remoteDnsServers false d
    (Ready r.2.zones (masters reachable remoteDnsServers) vmName myip mydomain mynetReverse →
      (r.1 = true → Finished r.2.zones (servers reachable remoteDnsServers)
        (zoneFiles mydomain mynetReverse)) →
      Registered d.zones d'.zones (servers reachable remoteDnsServers) vmName myip mydomain
        mynetReverse) ∧
    (r.1 = false →
      Finished d.zones (servers reachable remoteDnsServers) (zoneFiles mydomain mynetReverse) →
      Registered d.zones d'.zones (servers reachable remoteDnsServers) vmName myip mydomain
        mynetReverse →
      Ready d.zones (masters reachable remoteDnsServers) vmName myip mydomain mynetReverse) := by
  intro r d'
  constructor
  · intro hready hfin
    have hreg : Registered r.2.zones (registered e (masters reachable remoteDnsServers) vmName myip
        mydomain mynetReverse r.2.zones) (servers reachable remoteDnsServers) vmName myip mydomain
        mynetReverse := registered_of_ready hn hi hready
    have hkeep : ∀ k ρ, ρ ∈ rows (d.zones.text k) → ρ ∈ rows (r.2.zones.text k) := fun k ρ =>
      rows_ensureZones _ k
    have hreg' : Registered r.2.zones d'.zones (servers reachable remoteDnsServers) vmName myip
        mydomain mynetReverse := by
      by_cases hcreated : r.1 = true
      · have hz : d'.zones = (syncZone (registered e (masters reachable remoteDnsServers) vmName myip
            mydomain mynetReverse r.2.zones) loads reachable mydomain mynetReverse
            remoteDnsServers).2 := if_pos hcreated
        rw [hz]
        exact registered_syncZone hreg (finished_registered hn hi (hfin hcreated))
      · have hz : d'.zones = registered e (masters reachable remoteDnsServers) vmName myip mydomain
            mynetReverse r.2.zones := if_neg hcreated
        rwa [hz]
    exact fun s hs => ⟨(hreg' s hs).1.after (hkeep _), fun hne => ((hreg' s hs).2 hne).after (hkeep _)⟩
  · intro hcreated hfin hreg
    have hd : r.2 = d := ensureZones_of_false hcreated
    have hz : d'.zones = registered e (masters reachable remoteDnsServers) vmName myip mydomain
        mynetReverse d.zones := by
      have hz' : d'.zones = registered e (masters reachable remoteDnsServers) vmName myip mydomain
        mynetReverse r.2.zones := if_neg (by rw [hcreated]; exact Bool.false_ne_true)
      rw [hz', hd]
    rw [hz] at hreg
    exact ready_of_registered hn hi (fun m hm f hf =>
      hfin (some m) (List.mem_cons_of_mem _ (List.mem_map_of_mem hm)) f hf) hreg

/-- A service of two servers that declare every zone: the files of this host are empty, a master
`m1` has one line in each. -/
def twoServers (forward reverse : Text) : DnsService where
  zones k :=
    if k = (some "m1".toList, "lab.lan".toList) then some forward
    else if k = (some "m1".toList, "0.0.10.db".toList) then some reverse
    else none
  declared _ _ := true

/-- The service of two servers where `m1` holds another node. -/
def otherNode : DnsService :=
  twoServers "node2         IN  A       10.0.0.2\n".toList "2      IN  PTR     node2.lab.\n".toList

theorem addToDns_registers_iff_other_node :
    Registered otherNode.zones
      (addToDns plainEngines (fun _ _ => none) (fun _ => true) "node1.lab".toList "10.0.0.1".toList
        "lab".toList "0.0.10".toList ["m1".toList] false otherNode).zones
      (servers (fun _ => true) ["m1".toList]) "node1.lab".toList "10.0.0.1".toList "lab".toList
      "0.0.10".toList := by
  refine (addToDns_registers_iff (by decide) (by decide) plainEngines
    (fun _ _ => none) (fun _ => true) "lab".toList "0.0.10".toList ["m1".toList] otherNode).1
    (fun m hm => ?_) (fun h => absurd h (by decide))
  obtain rfl : m = "m1".toList := by simpa [masters] using hm
  rw [ensureZones_of_false (d := otherNode) (by decide)]
  refine ⟨⟨fun h => absurd h (by decide), Or.inr ?_⟩, fun _ => ?_⟩
  · have hopen : openLine (otherNode.zones.text (some "m1".toList, forwardFile "lab".toList)) = [] := by
      decide
    rw [hopen]
    exact blank_nil
  · have hlines : lines (otherNode.zones.text (some "m1".toList, reverseFile "0.0.10".toList)) =
        ["2      IN  PTR     node2.lab.".toList] := by decide
    have hrows : rows "2      IN  PTR     node2.lab.".toList =
        [pointerRow "2".toList ["IN".toList] "node2.lab.".toList] := by decide
    have hstays : ∀ l, Stays (lastOctet "10.0.0.1".toList)
        (otherNode.zones.text (some "m1".toList, reverseFile "0.0.10".toList)) l ↔
        l = "2      IN  PTR     node2.lab.".toList := fun l => by
      rw [stays_iff (lastOctet_digits (by decide)).2]
      have hl : lines (dropOctet (lastOctet "10.0.0.1".toList)
          (otherNode.zones.text (some "m1".toList, reverseFile "0.0.10".toList))) =
          ["2      IN  PTR     node2.lab.".toList] := by decide
      rw [hl, List.mem_singleton]
    refine ⟨fun l hl hin => ?_, Or.inr ?_, fun l hl mid target hρ => ?_,
      fun o mid target _ hρ => ⟨_, (hstays _).mpr rfl, ?_⟩⟩
    · rw [(hstays l).mp hl] at hin
      exact absurd hin (by decide)
    · have hopen : openLine (dropOctet (lastOctet "10.0.0.1".toList)
          (otherNode.zones.text (some "m1".toList, reverseFile "0.0.10".toList))) = [] := by
        decide
      rw [hopen]
      exact blank_nil
    · rw [(hstays l).mp hl, hrows, List.mem_singleton] at hρ
      exact absurd (List.cons.inj hρ).1 (by decide)
    · rw [mem_rows_iff_lines, hlines] at hρ
      obtain ⟨l, hl, hρ⟩ := hρ
      rwa [List.mem_singleton.mp hl] at hρ

/-- **A node whose name and address end inside those of another is not added on a master.** -/
theorem addToDns_skips_suffix :
    ¬ Registered (twoServers "mynode1         IN  A       10.0.0.14\n".toList []).zones
      (addToDns plainEngines (fun _ _ => none) (fun _ => true) "node1.lab".toList "10.0.0.1".toList
        "lab".toList "0.0.10".toList ["m1".toList] false
        (twoServers "mynode1         IN  A       10.0.0.14\n".toList [])).zones
      (servers (fun _ => true) ["m1".toList]) "node1.lab".toList "10.0.0.1".toList "lab".toList
      "0.0.10".toList := by
  intro h
  have hheld := (h (some "m1".toList) (by decide)).1.held
  exact absurd hheld (by decide)

end DnsService

end LabInABox.Dns
