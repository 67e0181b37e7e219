import LabInABox.Dns.Rows

/-!
# Pruning the masters of a zone

Model of `pattern` (`libs/dns_zone.py`), of `prune_zone` and the removals it makes
(`libs/services.py`), and of the command that runs it: `dns_sync.py --prune` and `overlay_ctl.py
dns-sync` with `prune` call `sync_zone` and then `prune_zone`.

* What reads an expression is not in the repository: `Engines` holds `re.compile(..).match` of this
  host and `sed -Ei` of a master. `re` refuses some expressions, which ends the command.
* `Alone` and `HeldByTwo` are about the zones the command starts from.

Results:
* `mem_guardedAdds_iff`: which records of an ascending write pass the substring guard.
* `mem_synced_iff`: what one copy holds between the two halves of the command.
* `prune_iff`: what one master held alone is gone, and the rest is everywhere, exactly when the
  synchronisation fails to copy each record held alone and reaches every copy with the others. A
  record of another master is copied to this host in any case, so it must not be held alone.
-/

namespace LabInABox.Dns

open Text

/-! ## The expression of a record -/

/-- `field.replace("\\", "\\\\")`. -/
def escapeBackslashes (t : Text) : Text := t.flatMap fun c => if c = '\\' then ['\\', '\\'] else [c]

/-- `pattern(record)`. -/
def pattern (record : Text) : Text :=
  "^[[:space:]]*".toList ++
    "[[:space:]]+".toList.intercalate
      ((fields record).map fun field => escapeDots (escapeBackslashes field)) ++
    "[[:space:]]*$".toList

/-- `t.replace(old, new)` for an `old` that is not empty, after `n` characters to leave out. -/
def replaceFrom (old new : Text) : Nat → Text → Text
  | _, [] => []
  | n + 1, _ :: cs => replaceFrom old new n cs
  | 0, c :: cs =>
    if old <+: c :: cs then new ++ replaceFrom old new (old.length - 1) cs
    else c :: replaceFrom old new 0 cs

/-- `pattern(record).replace("[[:space:]]", r"\s")`: the expression as `re` reads it. -/
def localPattern (record : Text) : Text :=
  replaceFrom "[[:space:]]".toList "\\s".toList 0 (pattern record)

/-- What reads the expressions. -/
structure Engines where
  /-- `re.compile(expression).match`, `none` where `re` refuses the expression. -/
  compile : Text → Option (Text → Bool)
  /-- What `sed -Ei script` leaves of a file. -/
  sed : Text → Text → Text

/-! ## Removing -/

/-- `_dns_remove_record(zone_file, record)`. -/
def dnsRemoveRecord (e : Engines) (z : Zones) (fileName record : Text) : Option Zones :=
  match z (none, fileName) with
  | none => some z
  | some text => (e.compile (localPattern record)).map fun matcher =>
      z.put (none, fileName) (dropMatched matcher text)

/-- `_remote_dns_remove_record(server, zone_file, record)`. -/
def remoteDnsRemoveRecord (e : Engines) (z : Zones) (server fileName record : Text) : Zones :=
  match z (some server, fileName) with
  | none => z
  | some text =>
    z.put (some server, fileName) (e.sed ("\\|".toList ++ pattern record ++ "|d".toList) text)

/-- The removal `prune_zone` makes for one record of a row. -/
def removeAlone (e : Engines) (d : Difference) (z : Zones) (record : Text) : Option Zones :=
  match d.server with
  | none => dnsRemoveRecord e z d.fileName record
  | some server => some (remoteDnsRemoveRecord e z server d.fileName record)

/-- The removals `prune_zone` makes for one row. -/
def pruneRow (e : Engines) (z : Zones) (d : Difference) : Option Zones :=
  (sorted d.alone).foldlM (removeAlone e d) z

/-- The messages of `prune_zone`. -/
def pruneMessages (comparison : List Difference) : List Text :=
  comparison.flatMap fun d => (sorted d.alone).map fun record =>
    "removed '".toList ++ record ++ "' from DNS server '".toList ++ serverName d.server ++
      "' (".toList ++ d.fileName ++ ")".toList

/-- `prune_zone(mydomain, mynet_reverse, remote_dns_servers)`: its messages and the files after it,
`none` where `re` refuses an expression. -/
def pruneZone (e : Engines) (z : Zones) (reachable : Text → Bool) (mydomain mynetReverse : Text)
    (remoteDnsServers : List Text) : Option (List Text × Zones) :=
  let comparison := compareZone z reachable mydomain mynetReverse remoteDnsServers
  if (comparison.map Difference.server).eraseDups.length < 2 then some ([], z)
  else (comparison.foldlM (pruneRow e) z).map fun z' => (pruneMessages comparison, z')

/-- `dns_sync.py --prune` and `overlay_ctl.py dns-sync` with `prune`: the exit code, and the files
after the command. -/
def syncAndPrune (e : Engines) (z : Zones) (loads : Server → Text → Option Text)
    (reachable : Text → Bool) (mydomain mynetReverse : Text) (remoteDnsServers : List Text) :
    Option (Nat × Zones) :=
  let sync := syncZone z loads reachable mydomain mynetReverse remoteDnsServers
  (pruneZone e sync.2 reachable mydomain mynetReverse remoteDnsServers).map fun prune =>
    (if sync.1 ++ prune.1 = [] then 0 else 1, prune.2)

/-! ## What passes the guard -/

/-- **The records of an ascending write that pass the guard**: those that are no substring of the
file, nor of a smaller record. A record that is stopped stops nothing itself: what it holds the
file, or the record that stopped it, holds too. -/
theorem mem_guardedAdds_iff {r : Text} : ∀ {t : Text} {rs : List Text},
    ((∃ x ∈ rs, ¬ x <:+: t) → Blank (openLine t)) →
    (∀ x ∈ rs, IsRecord x) → rs.Pairwise (· < ·) →
    (r ∈ guardedAdds t rs ↔ r ∈ rs ∧ ¬ r <:+: t ∧ ∀ r' ∈ rs, r' < r → ¬ r <:+: r')
  | t, [], _, _, _ => by simp [guardedAdds]
  | t, x :: rs, hb, h, hlt => by
    have hx := h x List.mem_cons_self
    have htl : ∀ y ∈ rs, IsRecord y := fun y hy => h y (List.mem_cons_of_mem _ hy)
    obtain ⟨hfirst, hrest⟩ := List.pairwise_cons.mp hlt
    rw [guardedAdds]
    cases hg : grepF x t with
    | true =>
      have hin : x <:+: t := by
        by_contra hno
        rw [(grepF_eq_false_iff hx).mpr hno] at hg
        exact absurd hg (by simp)
      have hb' : (∃ y ∈ rs, ¬ y <:+: t) → Blank (openLine t) := by
        rintro ⟨y, hy, hno⟩
        exact hb ⟨y, List.mem_cons_of_mem _ hy, hno⟩
      rw [if_pos rfl, mem_guardedAdds_iff hb' htl hrest]
      constructor
      · rintro ⟨hr, hno, hlow⟩
        refine ⟨List.mem_cons_of_mem _ hr, hno, fun r' hr' hlt' hin' => ?_⟩
        rcases List.mem_cons.mp hr' with rfl | hr'
        · exact hno (hin'.trans hin)
        · exact hlow r' hr' hlt' hin'
      · rintro ⟨hr, hno, hlow⟩
        rcases List.mem_cons.mp hr with rfl | hr
        · exact absurd hin hno
        · exact ⟨hr, hno, fun r' hr' => hlow r' (List.mem_cons_of_mem _ hr')⟩
    | false =>
      have hno := (grepF_eq_false_iff hx).mp hg
      have hb := hb ⟨x, List.mem_cons_self, hno⟩
      have hb' : (∃ y ∈ rs, ¬ y <:+: appendLine t x) → Blank (openLine (appendLine t x)) := fun _ => by
        rw [openLine_appendLine]
        exact fun _ hc => absurd hc List.not_mem_nil
      rw [if_neg Bool.false_ne_true, List.mem_cons, mem_guardedAdds_iff hb' htl hrest]
      constructor
      · rintro (rfl | ⟨hr, happ, hlow⟩)
        · refine ⟨List.mem_cons_self, hno, fun r' hr' hlt' => ?_⟩
          rcases List.mem_cons.mp hr' with rfl | hr'
          · exact absurd hlt' (lt_irrefl _)
          · exact absurd hlt' (lt_asymm (hfirst r' hr'))
        · rw [infix_appendLine_iff hb (htl r hr), not_or] at happ
          refine ⟨List.mem_cons_of_mem _ hr, happ.1, fun r' hr' hlt' => ?_⟩
          rcases List.mem_cons.mp hr' with rfl | hr'
          · exact happ.2
          · exact hlow r' hr' hlt'
      · rintro ⟨hr, hnot, hlow⟩
        rcases List.mem_cons.mp hr with rfl | hr
        · exact Or.inl rfl
        · refine Or.inr ⟨hr, ?_, fun r' hr' => hlow r' (List.mem_cons_of_mem _ hr')⟩
          rw [infix_appendLine_iff hb (htl r hr), not_or]
          exact ⟨hnot, hlow x List.mem_cons_self (hfirst r hr)⟩

/-! ## Between the two halves -/

variable {e : Engines} {z : Zones} {loads : Server → Text → Option Text} {reachable : Text → Bool}
  {mydomain mynetReverse : Text} {remoteDnsServers : List Text}

/-- A record exactly one of the servers holds in a file. -/
def Alone (z : Zones) (ss : List Server) (fileName r : Text) : Prop :=
  ∃ s ∈ ss, r ∈ zoneRecords z s fileName ∧ ∀ s' ∈ ss, r ∈ zoneRecords z s' fileName → s' = s

/-- A record two of the servers hold in a file. -/
def HeldByTwo (z : Zones) (ss : List Server) (fileName r : Text) : Prop :=
  ∃ s ∈ ss, ∃ s' ∈ ss, s ≠ s' ∧ r ∈ zoneRecords z s fileName ∧ r ∈ zoneRecords z s' fileName

/-- The write of a record a copy lacks passes the guard of a master. -/
def Reaches (z : Zones) (ss : List Server) (k : ZoneKey) (r : Text) : Prop :=
  ¬ r <:+: z.text k ∧ ∀ r', Lacks z ss k r' → r' < r → ¬ r <:+: r'

/-- The copies that are written to end in a line break, or in blanks after one: those of this host
that lack a record, and those of a master that lack one the guard lets through. -/
def Closed (z : Zones) (ss : List Server) (fileName : Text) : Prop :=
  ∀ s ∈ ss, (∃ r, Lacks z ss (s, fileName) r ∧ (s ≠ none → ¬ r <:+: z.text (s, fileName))) →
    Blank (openLine (z.text (s, fileName)))

theorem alone_or_heldByTwo {ss : List Server} {fileName r : Text} {s : Server} (hs : s ∈ ss)
    (hr : r ∈ zoneRecords z s fileName) : Alone z ss fileName r ∨ HeldByTwo z ss fileName r := by
  by_cases h : ∀ s' ∈ ss, r ∈ zoneRecords z s' fileName → s' = s
  · exact Or.inl ⟨s, hs, hr, h⟩
  · push Not at h
    obtain ⟨s', hs', hr', hne⟩ := h
    exact Or.inr ⟨s', hs', s, hs, hne, hr', hr⟩

theorem Alone.not_heldByTwo {ss : List Server} {fileName r : Text} (h : Alone z ss fileName r) :
    ¬ HeldByTwo z ss fileName r := by
  rintro ⟨s, hs, s', hs', hne, hr, hr'⟩
  obtain ⟨_, _, _, honly⟩ := h
  exact hne ((honly s hs hr).trans (honly s' hs' hr').symm)

theorem Alone.exists {ss : List Server} {fileName r : Text} (h : Alone z ss fileName r) :
    ∃ s ∈ ss, r ∈ zoneRecords z s fileName :=
  let ⟨s, hs, hr, _⟩ := h
  ⟨s, hs, hr⟩

theorem HeldByTwo.exists {ss : List Server} {fileName r : Text} (h : HeldByTwo z ss fileName r) :
    ∃ s ∈ ss, r ∈ zoneRecords z s fileName :=
  let ⟨s, hs, _, _, _, hr, _⟩ := h
  ⟨s, hs, hr⟩

/-- The zones after the first half of the command. -/
def synced (z : Zones) (loads : Server → Text → Option Text) (reachable : Text → Bool)
    (mydomain mynetReverse : Text) (remoteDnsServers : List Text) : Zones :=
  (syncZone z loads reachable mydomain mynetReverse remoteDnsServers).2

/-- **What one copy holds after the synchronisation**: what it held, and of the records it lacked
all of them on this host, those that pass the guard on a master. -/
theorem mem_synced_iff {fileName : Text} (hf : fileName ∈ zoneFiles mydomain mynetReverse)
    {s : Server} (hs : s ∈ servers reachable remoteDnsServers)
    (hc : Closed z (servers reachable remoteDnsServers) fileName) {r : Text} :
    r ∈ zoneRecords (synced z loads reachable mydomain mynetReverse remoteDnsServers) s fileName ↔
      r ∈ zoneRecords z s fileName ∨
        Lacks z (servers reachable remoteDnsServers) (s, fileName) r ∧
          (s ≠ none → Reaches z (servers reachable remoteDnsServers) (s, fileName) r) := by
  have hmiss : ∀ x, x ∈ sorted (compareServer z fileName
      (servers reachable remoteDnsServers).eraseDups s).missing ↔
      Lacks z (servers reachable remoteDnsServers) (s, fileName) x := fun x => by
    rw [mem_sorted, mem_missing_iff]
  have hlt : (sorted (compareServer z fileName (servers reachable remoteDnsServers).eraseDups
      s).missing).Pairwise (· < ·) := sorted_strict nodup_missing
  rw [zoneRecords, synced, syncZone_text loads hf hs]
  generalize sorted (compareServer z fileName
    (servers reachable remoteDnsServers).eraseDups s).missing = rs at hmiss hlt
  have hrec : ∀ x ∈ rs, IsRecord x := fun x hx => isRecord_of_lacks ((hmiss x).mp hx)
  have hwritten : ∀ x, x ∈ writtenRecords s (z.text (s, fileName)) rs ↔
      Lacks z (servers reachable remoteDnsServers) (s, fileName) x ∧
        (s ≠ none → Reaches z (servers reachable remoteDnsServers) (s, fileName) x) := fun x => by
    rw [← hmiss]
    cases s with
    | none => simp [writtenRecords]
    | some name =>
      have hb : (∃ y ∈ rs, ¬ y <:+: z.text (some name, fileName)) →
          Blank (openLine (z.text (some name, fileName))) := by
        rintro ⟨y, hy, hno⟩
        exact hc _ hs ⟨y, (hmiss y).mp hy, fun _ => hno⟩
      rw [writtenRecords, mem_guardedAdds_iff hb hrec hlt]
      refine and_congr Iff.rfl ⟨fun h _ => ⟨h.1, fun r' hr' => h.2 r' ((hmiss r').mpr hr')⟩,
        fun h => ?_⟩
      obtain ⟨hno, hlow⟩ := h (Option.some_ne_none name)
      exact ⟨hno, fun r' hr' => hlow r' ((hmiss r').mp hr')⟩
  by_cases hne : writtenRecords s (z.text (s, fileName)) rs = []
  · have hno : ¬ (_ ∧ _) := fun h => List.not_mem_nil (hne ▸ (hwritten r).mpr h)
    rw [hne, unlines_nil, List.append_nil, zoneRecords, or_iff_left hno]
  · obtain ⟨x, hx⟩ := List.exists_mem_of_ne_nil _ hne
    obtain ⟨hl, hreach⟩ := (hwritten x).mp hx
    have hb := hc s hs ⟨x, hl, fun hsome => (hreach hsome).1⟩
    rw [mem_records_append hb fun y hy => hrec y ((writtenRecords_sublist _ _ rs).subset hy),
      zoneRecords, hwritten]

/-! ## Removing the lines of a file -/

/-- `matcher.match(line)` for the expression of a record, where `re` takes it. -/
def matcherOf (e : Engines) (record : Text) : Text → Bool :=
  (e.compile (localPattern record)).getD fun _ => false

/-- What removing records in turn leaves of a file of this host. -/
def dropRecords (e : Engines) (rs : List Text) (text : Text) : Text :=
  rs.foldl (fun text r => dropMatched (matcherOf e r) text) text

theorem dropRecords_cons (e : Engines) (r : Text) (rs : List Text) (text : Text) :
    dropRecords e (r :: rs) text = dropRecords e rs (dropMatched (matcherOf e r) text) := rfl

/-- **A record stays** iff it has a line that none of the expressions matches. -/
theorem mem_records_dropRecords {rs : List Text} {text r : Text} :
    r ∈ records (dropRecords e rs text) ↔
      ∃ l ∈ splitlines text, recordOf l = some r ∧ ∀ a ∈ rs, matcherOf e a l = false := by
  rw [mem_records]
  induction rs generalizing text with
  | nil => simp [dropRecords]
  | cons a rs ih =>
    have hq : ¬ (recordOf [] = some r ∧ ∀ a ∈ rs, matcherOf e a [] = false) := fun h =>
      absurd h.1 (by rw [recordOf_nil]; simp)
    rw [dropRecords_cons, ih, exists_splitlines_dropMatched hq]
    simp only [List.forall_mem_cons, and_left_comm]

theorem dropRecords_foldlM {fileName : Text} : ∀ {rs : List Text} {z : Zones} {text : Text},
    z (none, fileName) = some text →
    (∀ r ∈ rs, (e.compile (localPattern r)).isSome = true) →
    rs.foldlM (fun z r => dnsRemoveRecord e z fileName r) z =
      some (if rs = [] then z else z.put (none, fileName) (dropRecords e rs text))
  | [], _, _, _, _ => rfl
  | r :: rs, z, text, hz, hok => by
    obtain ⟨hr, hrs⟩ := List.forall_mem_cons.mp hok
    obtain ⟨matcher, hm⟩ := Option.isSome_iff_exists.mp hr
    have hstep : dnsRemoveRecord e z fileName r =
        some (z.put (none, fileName) (dropMatched (matcherOf e r) text)) := by
      simp [dnsRemoveRecord, hz, hm, matcherOf]
    have hput : z.put (none, fileName) (dropMatched (matcherOf e r) text) (none, fileName) =
        some (dropMatched (matcherOf e r) text) := by simp [Zones.put]
    rw [List.foldlM_cons, hstep, if_neg (List.cons_ne_nil r rs)]
    change rs.foldlM _ (z.put (none, fileName) (dropMatched (matcherOf e r) text)) = _
    rw [dropRecords_foldlM hput hrs, dropRecords_cons]
    refine congrArg some ?_
    split
    · rename_i hnil
      rw [hnil]
      rfl
    · funext k
      unfold Zones.put
      split <;> rfl

theorem compiles_of_foldlM {fileName : Text} : ∀ {rs : List Text} {z z' : Zones} {text : Text},
    z (none, fileName) = some text →
    rs.foldlM (fun z r => dnsRemoveRecord e z fileName r) z = some z' →
    ∀ r ∈ rs, (e.compile (localPattern r)).isSome = true
  | [], _, _, _, _, _ => nofun
  | r :: rs, z, z', text, hz, h => by
    rw [List.foldlM_cons] at h
    obtain ⟨z₁, h₁, h⟩ := Option.bind_eq_some_iff.mp h
    rw [dnsRemoveRecord, hz] at h₁
    obtain ⟨matcher, hm, hz₁⟩ := Option.map_eq_some_iff.mp h₁
    have hput : z₁ (none, fileName) = some (dropMatched matcher text) := by
      rw [← hz₁]
      simp [Zones.put]
    refine List.forall_mem_cons.mpr ⟨by rw [hm]; rfl, compiles_of_foldlM hput h⟩

/-! ## The removals of a comparison -/

/-- The effect of a row that removes nothing from a master. -/
def pruneStep (e : Engines) (z : Zones) (d : Difference) : Zones :=
  if d.server = none ∧ d.alone ≠ [] then
    z.put d.key (dropRecords e (sorted d.alone) (z.text d.key))
  else z

/-- A row finds nothing alone on a master, and on this host only what a file of it holds. -/
def OnlyHere (z : Zones) (d : Difference) : Prop :=
  (d.server ≠ none → d.alone = []) ∧ (d.alone ≠ [] → ∃ text, z d.key = some text)

/-- `re` takes the expressions of what a row finds alone. -/
def Compiles (e : Engines) (d : Difference) : Prop :=
  ∀ r ∈ d.alone, (e.compile (localPattern r)).isSome = true

theorem pruneStep_text (z : Zones) (d : Difference) (k : ZoneKey) :
    (pruneStep e z d).text k =
      if k = d.key then if d.server = none then dropRecords e (sorted d.alone) (z.text k) else z.text k
      else z.text k := by
  unfold pruneStep
  by_cases hd : d.server = none ∧ d.alone ≠ []
  · rw [if_pos hd, if_pos hd.1]
    by_cases hk : k = d.key
    · rw [if_pos hk, hk, Zones.text_put_self]
    · rw [if_neg hk, Zones.text_put_of_ne z _ hk]
  · rw [if_neg hd]
    by_cases hs : d.server = none
    · have hnil : d.alone = [] := by
        by_contra hne
        exact hd ⟨hs, hne⟩
      rw [if_pos hs, hnil]
      exact (ite_self _).symm
    · rw [if_neg hs, ite_self]

theorem OnlyHere.pruneStep {d d' : Difference} (h : OnlyHere z d') :
    OnlyHere (pruneStep e z d) d' := by
  refine ⟨h.1, fun hne => ?_⟩
  obtain ⟨text, ht⟩ := h.2 hne
  unfold Dns.pruneStep Zones.put
  split
  · by_cases hk : d'.key = d.key
    · exact ⟨_, if_pos hk⟩
    · exact ⟨text, (if_neg hk).trans ht⟩
  · exact ⟨text, ht⟩

theorem pruneRow_eq {d : Difference} (h : OnlyHere z d) (hc : Compiles e d) :
    pruneRow e z d = some (pruneStep e z d) := by
  unfold pruneRow pruneStep
  by_cases hnil : d.alone = []
  · rw [if_neg fun hd => hd.2 hnil, hnil]
    rfl
  · have hs : d.server = none := by
      by_contra hne
      exact hnil (h.1 hne)
    have hrow : removeAlone e d = fun z r => dnsRemoveRecord e z d.fileName r := by
      funext z r
      rw [removeAlone, hs]
    have hkey : d.key = (none, d.fileName) := by rw [Difference.key, hs]
    obtain ⟨text, ht⟩ := h.2 hnil
    obtain ⟨r, hr⟩ := List.exists_mem_of_ne_nil _ hnil
    have hsorted : sorted d.alone ≠ [] := List.ne_nil_of_mem (mem_sorted.mpr hr)
    rw [if_pos ⟨hs, hnil⟩, hrow]
    rw [hkey] at ht ⊢
    rw [dropRecords_foldlM ht fun r hr => hc r (mem_sorted.mp hr), if_neg hsorted, Zones.text, ht]
    rfl

theorem pruneRow_foldlM : ∀ {ds : List Difference} {z : Zones}, (∀ d ∈ ds, OnlyHere z d) →
    (∀ d ∈ ds, Compiles e d) → ds.foldlM (pruneRow e) z = some (ds.foldl (pruneStep e) z)
  | [], _, _, _ => rfl
  | d :: ds, z, h, hc => by
    obtain ⟨hd, hds⟩ := List.forall_mem_cons.mp h
    obtain ⟨hcd, hcds⟩ := List.forall_mem_cons.mp hc
    rw [List.foldlM_cons, pruneRow_eq hd hcd, List.foldl_cons]
    exact pruneRow_foldlM (fun d' hd' => (hds d' hd').pruneStep) hcds

theorem compiles_of_pruneRow {d : Difference} {z' : Zones} (h : OnlyHere z d)
    (hrow : pruneRow e z d = some z') : Compiles e d := by
  intro r hr
  have hs : d.server = none := by
    by_contra hne
    rw [h.1 hne] at hr
    exact absurd hr List.not_mem_nil
  have hremove : removeAlone e d = fun z r => dnsRemoveRecord e z d.fileName r := by
    funext z r
    rw [removeAlone, hs]
  obtain ⟨text, ht⟩ := h.2 (List.ne_nil_of_mem hr)
  rw [Difference.key, hs] at ht
  rw [pruneRow, hremove] at hrow
  exact compiles_of_foldlM ht hrow r (mem_sorted.mpr hr)

theorem compiles_of_pruneRow_foldlM : ∀ {ds : List Difference} {z z' : Zones},
    (∀ d ∈ ds, OnlyHere z d) → ds.foldlM (pruneRow e) z = some z' → ∀ d ∈ ds, Compiles e d
  | [], _, _, _, _ => nofun
  | d :: ds, z, z', h, hrun => by
    obtain ⟨hd, hds⟩ := List.forall_mem_cons.mp h
    rw [List.foldlM_cons] at hrun
    obtain ⟨z₁, h₁, hrun⟩ := Option.bind_eq_some_iff.mp hrun
    have hcd := compiles_of_pruneRow hd h₁
    rw [pruneRow_eq hd hcd] at h₁
    obtain rfl := Option.some.inj h₁
    exact List.forall_mem_cons.mpr
      ⟨hcd, compiles_of_pruneRow_foldlM (fun d' hd' => (hds d' hd').pruneStep) hrun⟩

/-! ## The command -/

/-- The lines of this host's file, followed by the records it lacks. -/
def localLines (z : Zones) (ss : List Server) (fileName : Text) : List Text :=
  splitlines (z.text (none, fileName) ++
    unlines (sorted (compareServer z fileName ss.eraseDups none).missing))

/-- **What a prune is to leave**: what one server held alone nowhere, what two held everywhere, and
nothing that none held. -/
structure Pruned (z z' : Zones) (ss : List Server) (files : List Text) : Prop where
  gone : ∀ f ∈ files, ∀ r, Alone z ss f r → ∀ s ∈ ss, r ∉ zoneRecords z' s f
  everywhere : ∀ f ∈ files, ∀ r, HeldByTwo z ss f r → ∀ s ∈ ss, r ∈ zoneRecords z' s f
  nothing_else : ∀ f ∈ files, ∀ s ∈ ss, ∀ r ∈ zoneRecords z' s f, ∃ s' ∈ ss, r ∈ zoneRecords z s' f

/-- The command ends, and leaves what a prune is to leave. -/
def Prunes (e : Engines) (z : Zones) (loads : Server → Text → Option Text) (reachable : Text → Bool)
    (mydomain mynetReverse : Text) (remoteDnsServers : List Text) : Prop :=
  ∃ code z', syncAndPrune e z loads reachable mydomain mynetReverse remoteDnsServers =
      some (code, z') ∧
    Pruned z z' (servers reachable remoteDnsServers) (zoneFiles mydomain mynetReverse)

/-- What the command needs of one file: no master but this host holds a record alone; on every other
master the guard stops exactly the records held alone; and on this host the expressions of these
match all their lines, and leave a line of every other record. -/
structure PruneReady (e : Engines) (z : Zones) (ss : List Server) (f : Text) : Prop where
  alone_here : ∀ r, Alone z ss f r → r ∈ zoneRecords z none f
  reaches : ∀ s ∈ ss, s ≠ none → ∀ r, Lacks z ss (s, f) r →
    (Reaches z ss (s, f) r ↔ HeldByTwo z ss f r)
  compiles : ∀ r, Alone z ss f r → (e.compile (localPattern r)).isSome = true
  removed : ∀ r, Alone z ss f r → ∀ l ∈ localLines z ss f, recordOf l = some r →
    ∃ a, Alone z ss f a ∧ matcherOf e a l = true
  kept : ∀ r, HeldByTwo z ss f r → ∃ l ∈ localLines z ss f, recordOf l = some r ∧
    ∀ a, Alone z ss f a → matcherOf e a l = false

theorem pruned_iff {z z' : Zones} {ss : List Server} {files : List Text} :
    Pruned z z' ss files ↔
      ∀ f ∈ files, ∀ s ∈ ss, ∀ r, r ∈ zoneRecords z' s f ↔ HeldByTwo z ss f r := by
  constructor
  · intro h f hf s hs r
    refine ⟨fun hr => ?_, fun hr => h.everywhere f hf r hr s hs⟩
    obtain ⟨s', hs', hr'⟩ := h.nothing_else f hf s hs r hr
    exact (alone_or_heldByTwo hs' hr').resolve_left fun ha => h.gone f hf r ha s hs hr
  · intro h
    exact ⟨fun f hf r ha s hs hr => ha.not_heldByTwo ((h f hf s hs r).mp hr),
      fun f hf r ht s hs => (h f hf s hs r).mpr ht,
      fun f hf s hs r hr => ((h f hf s hs r).mp hr).exists⟩

/-! ### The comparison of the synchronised zones -/

section Synced

variable {fileName r : Text} {s : Server}

theorem none_mem_servers : none ∈ servers reachable remoteDnsServers := List.mem_cons_self

theorem some_mem_servers {name : Text} :
    some name ∈ servers reachable remoteDnsServers ↔ name ∈ masters reachable remoteDnsServers := by
  simp [servers]

theorem one_lt_servers (hne : masters reachable remoteDnsServers ≠ []) :
    1 < (servers reachable remoteDnsServers).eraseDups.length := by
  obtain ⟨name, hname⟩ := List.exists_mem_of_ne_nil _ hne
  have hsub : [none, some name] ⊆ (servers reachable remoteDnsServers).eraseDups := by
    intro x hx
    rw [List.mem_eraseDups]
    rcases List.mem_cons.mp hx with rfl | hx
    · exact none_mem_servers
    · rw [List.mem_singleton.mp hx]
      exact some_mem_servers.mpr hname
  have hnd : ([none, some name] : List Server).Nodup := by simp
  exact (hnd.subperm hsub).length_le

theorem mem_alone_iff (hlen : 1 < (servers reachable remoteDnsServers).eraseDups.length) :
    r ∈ (compareServer z fileName (servers reachable remoteDnsServers).eraseDups s).alone ↔
      r ∈ zoneRecords z s fileName ∧ ∀ s' ∈ servers reachable remoteDnsServers, s' ≠ s →
        r ∉ zoneRecords z s' fileName := by
  unfold compareServer
  dsimp only
  rw [if_pos hlen, mem_without]
  refine and_congr Iff.rfl ⟨fun h s' hs' hne hr => h ?_, fun h hr => ?_⟩
  · exact List.mem_flatMap.mpr
      ⟨s', List.mem_filter.mpr ⟨List.mem_eraseDups.mpr hs', by simpa using hne⟩, hr⟩
  · obtain ⟨s', hs', hr⟩ := List.mem_flatMap.mp hr
    obtain ⟨hs', hne⟩ := List.mem_filter.mp hs'
    exact h s' (List.mem_eraseDups.mp hs') (by simpa using hne) hr

/-- This host holds every record after the synchronisation. -/
theorem mem_synced_none_iff (hf : fileName ∈ zoneFiles mydomain mynetReverse)
    (hc : Closed z (servers reachable remoteDnsServers) fileName) :
    r ∈ zoneRecords (synced z loads reachable mydomain mynetReverse remoteDnsServers) none fileName ↔
      ∃ s ∈ servers reachable remoteDnsServers, r ∈ zoneRecords z s fileName := by
  rw [mem_synced_iff hf none_mem_servers hc]
  constructor
  · rintro (h | ⟨h, _⟩)
    · exact ⟨none, none_mem_servers, h⟩
    · exact h.1
  · intro h
    by_cases hr : r ∈ zoneRecords z none fileName
    · exact Or.inl hr
    · exact Or.inr ⟨⟨h, hr⟩, fun hne => absurd rfl hne⟩

theorem exists_of_mem_synced (hf : fileName ∈ zoneFiles mydomain mynetReverse)
    (hs : s ∈ servers reachable remoteDnsServers)
    (hc : Closed z (servers reachable remoteDnsServers) fileName)
    (hr : r ∈ zoneRecords (synced z loads reachable mydomain mynetReverse remoteDnsServers) s
      fileName) : ∃ s ∈ servers reachable remoteDnsServers, r ∈ zoneRecords z s fileName := by
  rcases (mem_synced_iff hf hs hc).mp hr with h | ⟨h, _⟩
  · exact ⟨s, hs, h⟩
  · exact h.1

/-- The comparison that follows finds nothing alone on a master: this host holds it too. -/
theorem onlyHere_synced (hne : masters reachable remoteDnsServers ≠ [])
    (hc : ∀ f ∈ zoneFiles mydomain mynetReverse, Closed z (servers reachable remoteDnsServers) f) :
    ∀ d ∈ compareZone (synced z loads reachable mydomain mynetReverse remoteDnsServers) reachable
        mydomain mynetReverse remoteDnsServers,
      OnlyHere (synced z loads reachable mydomain mynetReverse remoteDnsServers) d := by
  intro d hd
  obtain ⟨f, hf, hd⟩ := List.mem_flatMap.mp hd
  obtain ⟨s, hs, rfl⟩ := List.mem_map.mp hd
  have hs := List.mem_eraseDups.mp hs
  have hlen := one_lt_servers hne
  constructor
  · intro hsome
    refine List.eq_nil_iff_forall_not_mem.mpr fun r hr => ?_
    obtain ⟨hr, hno⟩ := (mem_alone_iff hlen).mp hr
    refine hno none none_mem_servers (Ne.symm hsome) ?_
    exact (mem_synced_none_iff hf (hc f hf)).mpr (exists_of_mem_synced hf hs (hc f hf) hr)
  · intro hnil
    obtain ⟨r, hr⟩ := List.exists_mem_of_ne_nil _ hnil
    have hr := ((mem_alone_iff hlen).mp hr).1
    cases hk : synced z loads reachable mydomain mynetReverse remoteDnsServers (s, f) with
    | some text => exact ⟨text, hk⟩
    | none =>
      rw [zoneRecords, Zones.text, hk] at hr
      exact absurd hr List.not_mem_nil

/-- The masters hold after the synchronisation what they are to hold after the prune iff no other
master holds a record alone and the guard stops exactly these. -/
theorem masters_synced_iff (hf : fileName ∈ zoneFiles mydomain mynetReverse)
    (hc : Closed z (servers reachable remoteDnsServers) fileName) :
    (∀ s ∈ servers reachable remoteDnsServers, s ≠ none → ∀ r,
      (r ∈ zoneRecords (synced z loads reachable mydomain mynetReverse remoteDnsServers) s fileName ↔
        HeldByTwo z (servers reachable remoteDnsServers) fileName r)) ↔
    (∀ r, Alone z (servers reachable remoteDnsServers) fileName r → r ∈ zoneRecords z none fileName) ∧
      ∀ s ∈ servers reachable remoteDnsServers, s ≠ none → ∀ r,
        Lacks z (servers reachable remoteDnsServers) (s, fileName) r →
        (Reaches z (servers reachable remoteDnsServers) (s, fileName) r ↔
          HeldByTwo z (servers reachable remoteDnsServers) fileName r) := by
  constructor
  · intro h
    refine ⟨fun r ha => ?_, fun s hs hsome r hl => ?_⟩
    · obtain ⟨s, hs, hr, _⟩ := id ha
      by_cases hsome : s = none
      · rwa [← hsome]
      · have := (h s hs hsome r).mp ((mem_synced_iff hf hs hc).mpr (Or.inl hr))
        exact absurd this ha.not_heldByTwo
    · rw [← h s hs hsome r, mem_synced_iff hf hs hc]
      exact ⟨fun hr => Or.inr ⟨hl, fun _ => hr⟩,
        fun hr => hr.elim (fun hr => absurd hr hl.2) fun hr => hr.2 hsome⟩
  · rintro ⟨hhere, hreach⟩ s hs hsome r
    rw [mem_synced_iff hf hs hc]
    constructor
    · rintro (hr | ⟨hl, hr⟩)
      · refine (alone_or_heldByTwo hs hr).resolve_left fun ha => ?_
        obtain ⟨s', _, _, honly⟩ := id ha
        have hnone := honly none none_mem_servers (hhere r ha)
        exact hsome ((honly s hs hr).trans hnone.symm)
      · exact (hreach s hs hsome r hl).mp (hr hsome)
    · intro ht
      by_cases hr : r ∈ zoneRecords z s fileName
      · exact Or.inl hr
      · exact Or.inr ⟨⟨ht.exists, hr⟩, fun _ => (hreach s hs hsome r ⟨ht.exists, hr⟩).mpr ht⟩

/-- What the prune finds alone on this host is then what was held alone. -/
theorem mem_aloneHere_iff (hf : fileName ∈ zoneFiles mydomain mynetReverse)
    (hc : Closed z (servers reachable remoteDnsServers) fileName)
    (hne : masters reachable remoteDnsServers ≠ [])
    (hm : ∀ s ∈ servers reachable remoteDnsServers, s ≠ none → ∀ r,
      (r ∈ zoneRecords (synced z loads reachable mydomain mynetReverse remoteDnsServers) s fileName ↔
        HeldByTwo z (servers reachable remoteDnsServers) fileName r)) :
    r ∈ (compareServer (synced z loads reachable mydomain mynetReverse remoteDnsServers) fileName
        (servers reachable remoteDnsServers).eraseDups none).alone ↔
      Alone z (servers reachable remoteDnsServers) fileName r := by
  rw [mem_alone_iff (one_lt_servers hne), mem_synced_none_iff hf hc]
  constructor
  · rintro ⟨⟨s, hs, hr⟩, hno⟩
    obtain ⟨name, hname⟩ := List.exists_mem_of_ne_nil _ hne
    refine (alone_or_heldByTwo hs hr).resolve_right fun ht => ?_
    refine hno (some name) (some_mem_servers.mpr hname) (Option.some_ne_none name) ?_
    exact (hm _ (some_mem_servers.mpr hname) (Option.some_ne_none name) r).mpr ht
  · intro ha
    exact ⟨ha.exists, fun s hs hsome hr => ha.not_heldByTwo ((hm s hs hsome r).mp hr)⟩

theorem synced_text_none (hf : fileName ∈ zoneFiles mydomain mynetReverse) :
    splitlines ((synced z loads reachable mydomain mynetReverse remoteDnsServers).text
      (none, fileName)) = localLines z (servers reachable remoteDnsServers) fileName := by
  rw [synced, syncZone_text loads hf none_mem_servers]
  rfl

end Synced

/-- **The second half of the command** ends iff `re` takes the expressions of what this host holds
alone, and then only touches the files of this host. -/
theorem pruneZone_iff (hne : masters reachable remoteDnsServers ≠ [])
    (honly : ∀ d ∈ compareZone z reachable mydomain mynetReverse remoteDnsServers, OnlyHere z d)
    {z' : Zones} :
    (∃ ms, pruneZone e z reachable mydomain mynetReverse remoteDnsServers = some (ms, z')) ↔
      (∀ d ∈ compareZone z reachable mydomain mynetReverse remoteDnsServers, Compiles e d) ∧
        z' = (compareZone z reachable mydomain mynetReverse remoteDnsServers).foldl (pruneStep e) z := by
  have htwo : ¬ ((compareZone z reachable mydomain mynetReverse remoteDnsServers).map
      Difference.server).eraseDups.length < 2 := by
    have hsub : (servers reachable remoteDnsServers).eraseDups ⊆
        ((compareZone z reachable mydomain mynetReverse remoteDnsServers).map
          Difference.server).eraseDups := by
      intro s hs
      rw [List.mem_eraseDups]
      refine List.mem_map.mpr ⟨_, List.mem_flatMap.mpr ⟨forwardFile mydomain, List.mem_cons_self,
        List.mem_map_of_mem hs⟩, rfl⟩
    have hle := ((nodup_eraseDups _).subperm hsub).length_le
    have := one_lt_servers hne
    omega
  unfold pruneZone
  dsimp only
  rw [if_neg htwo]
  constructor
  · rintro ⟨ms, h⟩
    obtain ⟨z₁, hrun, hz⟩ := Option.map_eq_some_iff.mp h
    have hc := compiles_of_pruneRow_foldlM honly hrun
    rw [pruneRow_foldlM honly hc] at hrun
    exact ⟨hc, (Prod.mk.inj hz).2.symm.trans (Option.some.inj hrun).symm⟩
  · rintro ⟨hc, rfl⟩
    rw [pruneRow_foldlM honly hc]
    exact ⟨_, rfl⟩

/-- What the removals leave of one copy. -/
theorem pruneStep_foldl_text {f : Text} (hf : f ∈ zoneFiles mydomain mynetReverse) {s : Server}
    (hs : s ∈ servers reachable remoteDnsServers) :
    ((compareZone z reachable mydomain mynetReverse remoteDnsServers).foldl (pruneStep e) z).text
        (s, f) =
      if s = none then dropRecords e
        (sorted (compareServer z f (servers reachable remoteDnsServers).eraseDups s).alone) (z.text (s, f))
      else z.text (s, f) := by
  have hmem : compareServer z f (servers reachable remoteDnsServers).eraseDups s ∈
      compareZone z reachable mydomain mynetReverse remoteDnsServers :=
    List.mem_flatMap.mpr ⟨f, hf, List.mem_map_of_mem (List.mem_eraseDups.mpr hs)⟩
  exact @foldl_at_key _ _ _ _ _ Zones.text Difference.key (pruneStep e)
    (fun d t => if d.server = none then dropRecords e (sorted d.alone) t else t) pruneStep_text _ z
    nodup_keys_compareZone _ hmem

/-- What the command leaves of one copy. -/
theorem mem_pruned_iff {f : Text} (hf : f ∈ zoneFiles mydomain mynetReverse) {s : Server}
    (hs : s ∈ servers reachable remoteDnsServers) {r : Text} :
    r ∈ zoneRecords ((compareZone (synced z loads reachable mydomain mynetReverse remoteDnsServers)
        reachable mydomain mynetReverse remoteDnsServers).foldl (pruneStep e)
          (synced z loads reachable mydomain mynetReverse remoteDnsServers)) s f ↔
      if s = none then ∃ l ∈ localLines z (servers reachable remoteDnsServers) f,
        recordOf l = some r ∧ ∀ a ∈ (compareServer (synced z loads reachable mydomain mynetReverse
          remoteDnsServers) f (servers reachable remoteDnsServers).eraseDups none).alone,
            matcherOf e a l = false
      else r ∈ zoneRecords (synced z loads reachable mydomain mynetReverse remoteDnsServers) s f := by
  rw [zoneRecords, pruneStep_foldl_text hf hs]
  by_cases hnone : s = none
  · subst hnone
    rw [if_pos rfl, if_pos rfl, mem_records_dropRecords, synced_text_none hf]
    simp only [mem_sorted]
  · rw [if_neg hnone, if_neg hnone, zoneRecords]

/-- The command over files it only appends whole lines to. -/
theorem prunes_iff_of_closed (hne : masters reachable remoteDnsServers ≠ [])
    (hc : ∀ f ∈ zoneFiles mydomain mynetReverse, Closed z (servers reachable remoteDnsServers) f) :
    Prunes e z loads reachable mydomain mynetReverse remoteDnsServers ↔
      ∀ f ∈ zoneFiles mydomain mynetReverse,
        PruneReady e z (servers reachable remoteDnsServers) f := by
  have honly := @onlyHere_synced z loads reachable mydomain mynetReverse remoteDnsServers hne hc
  have hrun : Prunes e z loads reachable mydomain mynetReverse remoteDnsServers ↔
      (∀ d ∈ compareZone (synced z loads reachable mydomain mynetReverse remoteDnsServers) reachable
        mydomain mynetReverse remoteDnsServers, Compiles e d) ∧
      ∀ f ∈ zoneFiles mydomain mynetReverse, ∀ s ∈ servers reachable remoteDnsServers, ∀ r,
        (r ∈ zoneRecords ((compareZone (synced z loads reachable mydomain mynetReverse
          remoteDnsServers) reachable mydomain mynetReverse remoteDnsServers).foldl (pruneStep e)
            (synced z loads reachable mydomain mynetReverse remoteDnsServers)) s f ↔
          HeldByTwo z (servers reachable remoteDnsServers) f r) := by
    unfold Prunes syncAndPrune
    constructor
    · rintro ⟨code, z', h, hp⟩
      obtain ⟨⟨ms, z₁⟩, hprune, hz⟩ := Option.map_eq_some_iff.mp h
      have hz₁ : z₁ = z' := (Prod.mk.inj hz).2
      obtain ⟨hcomp, hz'⟩ := (pruneZone_iff hne honly).mp ⟨ms, hprune⟩
      rw [← hz₁, hz'] at hp
      exact ⟨hcomp, pruned_iff.mp hp⟩
    · rintro ⟨hcomp, hp⟩
      obtain ⟨ms, h⟩ := (pruneZone_iff hne honly).mpr ⟨hcomp, rfl⟩
      exact ⟨_, _, Option.map_eq_some_iff.mpr ⟨_, h, rfl⟩, pruned_iff.mpr hp⟩
  rw [hrun]
  constructor
  · rintro ⟨hcomp, hp⟩ f hf
    have hm : ∀ s ∈ servers reachable remoteDnsServers, s ≠ none → ∀ r,
        (r ∈ zoneRecords (synced z loads reachable mydomain mynetReverse remoteDnsServers) s f ↔
          HeldByTwo z (servers reachable remoteDnsServers) f r) := fun s hs hsome r => by
      rw [← hp f hf s hs r, mem_pruned_iff hf hs, if_neg hsome]
    have halone := fun r => mem_aloneHere_iff (r := r) hf (hc f hf) hne hm
    have hhere := fun r => (hp f hf none none_mem_servers r).symm.trans
      (mem_pruned_iff hf none_mem_servers)
    obtain ⟨halone_here, hreaches⟩ := (masters_synced_iff hf (hc f hf)).mp hm
    refine ⟨halone_here, hreaches, fun r ha => ?_, fun r ha l hl hr => ?_, fun r ht => ?_⟩
    · exact hcomp _ (List.mem_flatMap.mpr ⟨f, hf, List.mem_map_of_mem
        (List.mem_eraseDups.mpr none_mem_servers)⟩) r ((halone r).mpr ha)
    · by_contra hno
      push Not at hno
      refine ha.not_heldByTwo ((hhere r).mpr ?_)
      rw [if_pos rfl]
      exact ⟨l, hl, hr, fun a haa => by simpa using hno a ((halone a).mp haa)⟩
    · have h := (hhere r).mp ht
      rw [if_pos rfl] at h
      obtain ⟨l, hl, hr, hm⟩ := h
      exact ⟨l, hl, hr, fun a haa => hm a ((halone a).mpr haa)⟩
  · intro h
    have hm : ∀ f ∈ zoneFiles mydomain mynetReverse, ∀ s ∈ servers reachable remoteDnsServers,
        s ≠ none → ∀ r,
        (r ∈ zoneRecords (synced z loads reachable mydomain mynetReverse remoteDnsServers) s f ↔
          HeldByTwo z (servers reachable remoteDnsServers) f r) := fun f hf =>
      (masters_synced_iff hf (hc f hf)).mpr ⟨(h f hf).alone_here, (h f hf).reaches⟩
    have halone := fun f hf r => mem_aloneHere_iff (r := r) hf (hc f hf) hne (hm f hf)
    refine ⟨fun d hd r hr => ?_, fun f hf s hs r => ?_⟩
    · obtain ⟨f, hf, hd'⟩ := List.mem_flatMap.mp hd
      obtain ⟨s, hs, rfl⟩ := List.mem_map.mp hd'
      have hnone : s = none := by
        by_contra hsome
        rw [(honly _ hd).1 hsome] at hr
        exact absurd hr List.not_mem_nil
      subst hnone
      exact (h f hf).compiles r ((halone f hf r).mp hr)
    · rw [mem_pruned_iff hf hs]
      by_cases hnone : s = none
      · subst hnone
        rw [if_pos rfl]
        constructor
        · rintro ⟨l, hl, hr, hno⟩
          obtain ⟨s', hs', hr'⟩ : ∃ s ∈ servers reachable remoteDnsServers, r ∈ zoneRecords z s f := by
            have hsync : r ∈ zoneRecords (synced z loads reachable mydomain mynetReverse
                remoteDnsServers) none f := by
              refine mem_records.mpr ⟨l, ?_, hr⟩
              rwa [synced_text_none hf]
            exact (mem_synced_none_iff hf (hc f hf)).mp hsync
          refine (alone_or_heldByTwo hs' hr').resolve_left fun ha => ?_
          obtain ⟨a, haa, hma⟩ := (h f hf).removed r ha l hl hr
          exact absurd ((hno a ((halone f hf a).mpr haa)).symm.trans hma) Bool.false_ne_true
        · intro ht
          obtain ⟨l, hl, hr, hno⟩ := (h f hf).kept r ht
          exact ⟨l, hl, hr, fun a haa => hno a ((halone f hf a).mp haa)⟩
      · rw [if_neg hnone]
        exact hm f hf s hs hnone r

/-- Over masters that agree there is nothing to prune. -/
theorem pruneReady_of_agree (hne : masters reachable remoteDnsServers ≠ []) {f : Text}
    (h : ∀ s ∈ servers reachable remoteDnsServers, ∀ r,
      r ∈ zoneRecords z s f ↔ r ∈ zoneRecords z none f) :
    Closed z (servers reachable remoteDnsServers) f ∧
      PruneReady e z (servers reachable remoteDnsServers) f := by
  have hlacks : ∀ s ∈ servers reachable remoteDnsServers, ∀ r,
      ¬ Lacks z (servers reachable remoteDnsServers) (s, f) r := by
    rintro s hs r ⟨⟨s', hs', hr⟩, hno⟩
    exact hno ((h s hs r).mpr ((h s' hs' r).mp hr))
  have halone : ∀ r, ¬ Alone z (servers reachable remoteDnsServers) f r := by
    rintro r ⟨s, hs, hr, honly⟩
    obtain ⟨name, hname⟩ := List.exists_mem_of_ne_nil _ hne
    have hname := some_mem_servers.mpr hname
    have hhere := (h s hs r).mp hr
    have h₁ := honly none none_mem_servers hhere
    have h₂ := honly (some name) hname ((h _ hname r).mpr hhere)
    exact absurd (h₁.trans h₂.symm) (Option.some_ne_none name).symm
  refine ⟨fun s hs ⟨r, hl, _⟩ => absurd hl (hlacks s hs r), fun r ha => absurd ha (halone r),
    fun s hs _ r hl => absurd hl (hlacks s hs r), fun r ha => absurd ha (halone r),
    fun r ha => absurd ha (halone r), fun r ht => ?_⟩
  obtain ⟨s, hs, hr⟩ := ht.exists
  have hmiss : (compareServer z f (servers reachable remoteDnsServers).eraseDups none).missing = [] :=
    List.eq_nil_iff_forall_not_mem.mpr fun r hr =>
      hlacks none none_mem_servers r (mem_missing_iff.mp hr)
  obtain ⟨l, hl, hr⟩ := mem_records.mp ((h s hs r).mp hr)
  refine ⟨l, ?_, hr, fun a ha => absurd ha (halone a)⟩
  rw [localLines, hmiss]
  simpa [sorted] using hl

/-- Expressions of plain records, read as the engines read them: whole lines, up to blanks. -/
def plainEngines : Engines where
  compile expression := some fun l => localPattern (join (fields l)) == expression
  sed script text := unlines ((lines text).filter fun l =>
    !("\\|".toList ++ pattern (join (fields l)) ++ "|d".toList == script))

/-- The zones of this host and of one master that holds what it is given. -/
def twoZones (here there : Text) : Zones := fun k =>
  if k = (none, "lab.lan".toList) then some here
  else if k = (some "ns2".toList, "lab.lan".toList) then some there
  else none

end LabInABox.Dns
