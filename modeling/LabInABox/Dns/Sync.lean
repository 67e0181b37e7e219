import Mathlib.Data.List.Infix
import Mathlib.Data.List.Perm.Subperm
import LabInABox.Dns.Zone
import LabInABox.Keyed
import LabInABox.Text.Order

/-!
# Bringing the masters of a zone into step

Model of the synchronisation in `libs/services.py` (`zone_records`, `_zone_files`, `_compare_zone`,
`_difference_messages`, `sync_zone`, `_write_records`, `_dns_append_line`, `_remote_dns_add`,
`masters`).

* `Zones` holds the zone file of every server: `none` is this host, `some name` a remote master. The
  shell is modelled by what the commands say: `grepF` is `grep -qF`, `appendLine` is `echo >>` and
  the local `f.write`.
* What `zone_loads` answers and which masters answer SSH are parameters (`loads`, `reachable`):
  neither changes a zone file.

Results:
* `writeRecords_text`: one write touches one zone file and appends to it the records its guard let
  through (`guardedAdds`).
* `guardedAdds_eq_self_iff`: the substring guard lets every record through iff none is a substring
  of the file or of a record written before it.
* `syncZone_text`: a synchronisation is one such write for each master and file.
* `syncZone_converges_iff`: it leaves every master with the union exactly when the open lines are
  blank and no missing record is a substring of what the file holds when it is written.
-/

namespace LabInABox.Dns

open Text

/-! ## Servers and their files -/

/-- A DNS server: this host (`None`), or a remote master by its name. -/
abbrev Server := Option Text

/-- The zone file of a server: the server and the name of the file. -/
abbrev ZoneKey := Server × Text

/-- The zone files the servers hold. -/
abbrev Zones := ZoneKey → Option Text

namespace Zones

/-- The text of a zone file, empty when there is no such file. -/
def text (z : Zones) (k : ZoneKey) : Text := (z k).getD []

/-- The file system after writing one file. -/
def put (z : Zones) (k : ZoneKey) (t : Text) : Zones := fun k' => if k' = k then some t else z k'

@[simp] theorem text_put_self (z : Zones) (k : ZoneKey) (t : Text) : (z.put k t).text k = t := by
  simp [text, put]

theorem text_put_of_ne (z : Zones) {k k' : ZoneKey} (t : Text) (h : k' ≠ k) :
    (z.put k t).text k' = z.text k' := by
  simp [text, put, h]

end Zones

/-- `grep -qF r`: some line of the text holds `r`. -/
def grepF (r t : Text) : Bool := (lines t).any fun l => decide (r <:+: l)

/-- `echo r >>` on a text. -/
def appendLine (t r : Text) : Text := t ++ (r ++ ['\n'])

/-- `zone_records(server, file_name)`. -/
def zoneRecords (z : Zones) (server : Server) (fileName : Text) : List Text :=
  records (z.text (server, fileName))

/-- `_zone_files(mydomain, mynet_reverse)`. -/
def zoneFiles (mydomain mynetReverse : Text) : List Text :=
  forwardFile mydomain :: if mynetReverse = [] then [] else [reverseFile mynetReverse]

/-- `_zone_pairs(mydomain, mynet_reverse)`: the same files, with the names of their zones. -/
def zonePairs (mydomain mynetReverse : Text) : List (Text × Text) :=
  (forwardFile mydomain, mydomain) ::
    if mynetReverse = [] then [] else [(reverseFile mynetReverse, reverseZone mynetReverse)]

/-- `masters(remote_dns_servers)`: those that answer. -/
def masters (reachable : Text → Bool) (remoteDnsServers : List Text) : List Text :=
  remoteDnsServers.filter reachable

/-- `[None] + self.masters(remote_dns_servers)`. -/
def servers (reachable : Text → Bool) (remoteDnsServers : List Text) : List Server :=
  none :: (masters reachable remoteDnsServers).map some

/-! ## Comparing -/

/-- One row of a comparison: `missing` and `alone` are sets in the source. -/
structure Difference where
  /-- The zone file. -/
  fileName : Text
  /-- The server whose copy it is. -/
  server : Server
  /-- The records of the other servers it lacks. -/
  missing : List Text
  /-- The records no other server has. -/
  alone : List Text
  deriving DecidableEq

/-- The set difference, over the lists that stand for sets. -/
def without (xs ys : List Text) : List Text := xs.filter (· ∉ ys)

@[simp] theorem mem_without {xs ys : List Text} {r : Text} : r ∈ without xs ys ↔ r ∈ xs ∧ r ∉ ys := by
  simp [without]

/-- The row of one server among those in `held`. -/
def compareServer (z : Zones) (fileName : Text) (held : List Server) (server : Server) : Difference :=
  let union := (held.flatMap fun s => zoneRecords z s fileName).dedup
  let records := zoneRecords z server fileName
  let others := if 1 < held.length then
      (held.filter (· ≠ server)).flatMap fun s => zoneRecords z s fileName
    else records
  ⟨fileName, server, without union records, without records others⟩

/-- The rows of one file: `held` is a dictionary, so a server listed twice counts once. -/
def compareFile (z : Zones) (servers : List Server) (fileName : Text) : List Difference :=
  servers.eraseDups.map (compareServer z fileName servers.eraseDups)

/-- `_compare_zone(mydomain, mynet_reverse, remote_dns_servers)`. -/
def compareZone (z : Zones) (reachable : Text → Bool) (mydomain mynetReverse : Text)
    (remoteDnsServers : List Text) : List Difference :=
  (zoneFiles mydomain mynetReverse).flatMap (compareFile z (servers reachable remoteDnsServers))

/-- `server or "this host"`. -/
def serverName (server : Server) : Text :=
  match server with
  | none | some [] => "this host".toList
  | some name => name

/-- `_difference_messages(comparison)`. -/
def differenceMessages (comparison : List Difference) : List Text :=
  comparison.flatMap fun d =>
    let name := serverName d.server
    (if d.missing = [] then [] else
      ["DNS server '".toList ++ name ++ "' is missing ".toList ++ d.missing.length.repr.toList ++
        " record(s) of '".toList ++ d.fileName ++ "': ".toList ++ sortedNames d.missing]) ++
    (if d.alone = [] then [] else
      ["DNS server '".toList ++ name ++ "' holds ".toList ++ d.alone.length.repr.toList ++
        " record(s) of '".toList ++ d.fileName ++
        ("' no other master has, which is either a record the others have not been written yet or " ++
          "one deleted from them: ").toList ++ sortedNames d.alone])

/-- `validate_zones(..)`, over what `zone_loads` answers: `none` for a zone that loads. -/
def validateZones (loads : Server → Text → Option Text) (reachable : Text → Bool)
    (mydomain mynetReverse : Text) (remoteDnsServers : List Text) : List Text :=
  (servers reachable remoteDnsServers).flatMap fun server =>
    (zonePairs mydomain mynetReverse).filterMap fun zone =>
      (loads server zone.2).map fun detail =>
        "DNS server '".toList ++ serverName server ++ "' cannot load its copy of '".toList ++ zone.2 ++
          ("', so it answers nothing for that zone however well its records agree with the other " ++
            "masters: ").toList ++ detail

/-! ## Writing -/

/-- `_dns_append_line(zone_file, record)` on this host. -/
def dnsAppendLine (z : Zones) (fileName r : Text) : Zones :=
  z.put (none, fileName) (appendLine (z.text (none, fileName)) r)

/-- `_remote_dns_add(server, zone_file, record)`: `grep -qF r file || echo r >> file`. -/
def remoteDnsAdd (z : Zones) (server fileName r : Text) : Zones :=
  if grepF r (z.text (some server, fileName)) then z
  else z.put (some server, fileName) (appendLine (z.text (some server, fileName)) r)

/-- `_write_records(server, file_name, records)`. -/
def writeRecords (z : Zones) (server : Server) (fileName : Text) (rs : List Text) : Zones :=
  match server with
  | none => rs.foldl (fun z r => dnsAppendLine z fileName r) z
  | some s => rs.foldl (fun z r => remoteDnsAdd z s fileName r) z

/-- The write `sync_zone` makes for one row. -/
def syncRow (z : Zones) (d : Difference) : Zones :=
  if d.missing = [] then z else writeRecords z d.server d.fileName (sorted d.missing)

/-- `sync_zone(mydomain, mynet_reverse, remote_dns_servers)`: its messages and the files after it. -/
def syncZone (z : Zones) (loads : Server → Text → Option Text) (reachable : Text → Bool)
    (mydomain mynetReverse : Text) (remoteDnsServers : List Text) : List Text × Zones :=
  let comparison := compareZone z reachable mydomain mynetReverse remoteDnsServers
  (validateZones loads reachable mydomain mynetReverse remoteDnsServers ++
      differenceMessages comparison,
    comparison.foldl syncRow z)

/-! ## What a guarded write appends -/

/-- The records the guard lets through, in turn. -/
def guardedAdds : Text → List Text → List Text
  | _, [] => []
  | t, r :: rs => if grepF r t then guardedAdds t rs else r :: guardedAdds (appendLine t r) rs

/-- The records a write appends: all of them here, those the guard lets through on a master. -/
def writtenRecords (server : Server) (t : Text) (rs : List Text) : List Text :=
  match server with
  | none => rs
  | some _ => guardedAdds t rs

theorem appendLine_eq (t r : Text) : appendLine t r = t ++ unlines [r] := by
  rw [appendLine, unlines_cons, unlines_nil]

theorem guardedAdds_sublist : ∀ (t : Text) (rs : List Text), (guardedAdds t rs).Sublist rs
  | _, [] => List.Sublist.slnil
  | t, r :: rs => by
    rw [guardedAdds]
    split
    · exact (guardedAdds_sublist t rs).cons r
    · exact (guardedAdds_sublist _ rs).cons_cons r

theorem dnsAppendLine_foldl_text (fileName : Text) (k : ZoneKey) :
    ∀ (rs : List Text) (z : Zones),
      (rs.foldl (fun z r => dnsAppendLine z fileName r) z).text k =
        if k = (none, fileName) then z.text k ++ unlines rs else z.text k
  | [], z => by simp
  | r :: rs, z => by
    rw [List.foldl_cons, dnsAppendLine_foldl_text fileName k rs, dnsAppendLine]
    by_cases hk : k = (none, fileName)
    · subst hk
      rw [if_pos rfl, if_pos rfl, Zones.text_put_self, appendLine_eq, List.append_assoc,
        ← unlines_append, List.singleton_append]
    · rw [if_neg hk, if_neg hk, Zones.text_put_of_ne z _ hk]

theorem remoteDnsAdd_foldl_text (server fileName : Text) (k : ZoneKey) :
    ∀ (rs : List Text) (z : Zones),
      (rs.foldl (fun z r => remoteDnsAdd z server fileName r) z).text k =
        if k = (some server, fileName) then z.text k ++ unlines (guardedAdds (z.text k) rs)
        else z.text k
  | [], z => by simp [guardedAdds]
  | r :: rs, z => by
    rw [List.foldl_cons, remoteDnsAdd_foldl_text server fileName k rs, remoteDnsAdd]
    by_cases hk : k = (some server, fileName)
    · subst hk
      rw [if_pos rfl, if_pos rfl, guardedAdds]
      split
      · rfl
      · rw [Zones.text_put_self, appendLine_eq, List.append_assoc, ← unlines_append,
          List.singleton_append]
    · rw [if_neg hk, if_neg hk]
      split
      · rfl
      · rw [Zones.text_put_of_ne z _ hk]

/-- **One write** appends to one zone file and leaves the others. -/
theorem writeRecords_text (z : Zones) (server : Server) (fileName : Text) (rs : List Text)
    (k : ZoneKey) :
    (writeRecords z server fileName rs).text k =
      if k = (server, fileName) then z.text k ++ unlines (writtenRecords server (z.text k) rs)
      else z.text k := by
  cases server with
  | none => exact dnsAppendLine_foldl_text fileName k rs z
  | some s => exact remoteDnsAdd_foldl_text s fileName k rs z

/-! ## When the guard lets every record through -/

theorem grepF_eq_false_iff {r : Text} (hr : IsRecord r) {t : Text} :
    grepF r t = false ↔ ¬ r <:+: t := by
  rw [← exists_mem_lines_infix_iff hr.isEntry.ne_nil hr.isEntry.oneLine.not_mem, grepF]
  simp

/-- Over an open line of blanks a record lies in the text or in what is appended. -/
theorem infix_append_iff_of_blank {t x : Text} (hb : Blank (openLine t)) (hx : IsEntry x)
    (r : Text) : x <:+: t ++ r ↔ x <:+: t ∨ x <:+: r := by
  constructor
  · intro h
    rcases List.infix_append_iff_ne_nil.mp h with h | h | ⟨u, v, hu, _, rfl, hsuf, _⟩
    · exact Or.inl h
    · exact Or.inr h
    · -- the part of `x` in `t` would be blanks, and `x` does not begin with one
      have hone : OneLine u := fun c hc => hx.oneLine c (List.mem_append_left _ hc)
      obtain ⟨c, cs, rfl⟩ := List.exists_cons_of_ne_nil hu
      have h1 := hb c ((suffix_openLine hone hsuf).subset List.mem_cons_self)
      rw [hx.head c rfl] at h1
      exact absurd h1 (by simp)
  · rintro (h | h)
    · exact List.infix_append_of_infix_left h
    · exact List.infix_append_of_infix_right h

theorem openLine_appendLine (t r : Text) : openLine (appendLine t r) = [] := by
  rw [appendLine, ← List.append_assoc, openLine, List.rtakeWhile_concat_neg]
  decide

theorem infix_appendLine_iff {t r x : Text} (hb : Blank (openLine t)) (hx : IsRecord x) :
    x <:+: appendLine t r ↔ x <:+: t ∨ x <:+: r := by
  have hnil : ¬ x <:+: [] := fun h => hx.isEntry.ne_nil (List.infix_nil.mp h)
  rw [appendLine, ← List.append_assoc, infix_append_cons_iff hx.isEntry.oneLine.not_mem,
    infix_append_iff_of_blank hb hx.isEntry, or_iff_left hnil]

/-- **The guard lets every record through** iff no record is a substring of the file, or of a record
written before it. -/
theorem guardedAdds_eq_self_iff : ∀ {t : Text} {rs : List Text}, Blank (openLine t) →
    (∀ r ∈ rs, IsRecord r) →
    (guardedAdds t rs = rs ↔ (∀ r ∈ rs, ¬ r <:+: t) ∧ rs.Pairwise fun r' r => ¬ r <:+: r')
  | t, [], _, _ => by simp [guardedAdds]
  | t, r :: rs, hb, h => by
    have hr := h r List.mem_cons_self
    have htl : ∀ x ∈ rs, IsRecord x := fun x hx => h x (List.mem_cons_of_mem _ hx)
    have hb' : Blank (openLine (appendLine t r)) := by
      rw [openLine_appendLine]
      exact fun _ hc => absurd hc List.not_mem_nil
    have ih := guardedAdds_eq_self_iff hb' htl
    rw [guardedAdds, List.pairwise_cons, List.forall_mem_cons]
    cases hg : grepF r t with
    | true =>
      rw [if_pos rfl]
      have hin : r <:+: t := by
        by_contra hno
        rw [(grepF_eq_false_iff hr).mpr hno] at hg
        exact absurd hg (by simp)
      refine ⟨fun e => ?_, fun e => absurd hin e.1.1⟩
      have := (guardedAdds_sublist t rs).length_le
      rw [e, List.length_cons] at this
      omega
    | false =>
      rw [if_neg Bool.false_ne_true, List.cons_inj_right, ih]
      have hno := (grepF_eq_false_iff hr).mp hg
      constructor
      · rintro ⟨h1, h2⟩
        refine ⟨⟨hno, fun x hx hin => h1 x hx ?_⟩, fun x hx hin => h1 x hx ?_, h2⟩
        · exact (infix_appendLine_iff hb (htl x hx)).mpr (Or.inl hin)
        · exact (infix_appendLine_iff hb (htl x hx)).mpr (Or.inr hin)
      · rintro ⟨⟨_, h1⟩, h2, h3⟩
        refine ⟨fun x hx hin => ?_, h3⟩
        rcases (infix_appendLine_iff hb (htl x hx)).mp hin with hin | hin
        · exact h1 x hx hin
        · exact h2 x hx hin

/-- Over a strictly ascending list, a relation along the list is one along the order. -/
theorem pairwise_iff_of_lt {α : Type*} [LinearOrder α] {R : α → α → Prop} {l : List α}
    (hl : l.Pairwise (· < ·)) : l.Pairwise R ↔ ∀ a ∈ l, ∀ b ∈ l, a < b → R a b := by
  refine ⟨fun h => ?_, fun h => hl.imp_of_mem fun ha hb hab => h _ ha _ hb hab⟩
  induction l with
  | nil => exact fun a ha => absurd ha List.not_mem_nil
  | cons x xs ih =>
    obtain ⟨hx, hxs⟩ := List.pairwise_cons.mp h
    obtain ⟨hlt, hltxs⟩ := List.pairwise_cons.mp hl
    intro a ha b hb hab
    rcases List.mem_cons.mp ha with rfl | ha'
    · rcases List.mem_cons.mp hb with rfl | hb'
      · exact absurd hab (lt_irrefl _)
      · exact hx b hb'
    · rcases List.mem_cons.mp hb with rfl | hb'
      · exact absurd hab (lt_asymm (hlt a ha'))
      · exact ih hltxs hxs a ha' b hb' hab

/-! ## One write that reaches the file -/

theorem writtenRecords_subset {server : Server} {t : Text} {rs : List Text} {r : Text}
    (h : r ∈ writtenRecords server t rs) : r ∈ rs := by
  cases server with
  | none => exact h
  | some s => exact (guardedAdds_sublist t rs).subset h

theorem writtenRecords_sublist (server : Server) (t : Text) (rs : List Text) :
    (writtenRecords server t rs).Sublist rs := by
  cases server with
  | none => exact List.Sublist.refl rs
  | some s => exact guardedAdds_sublist t rs

/-- Writing the records a file lacks adds them all iff its open line is blank and the guard stops
none of them. -/
theorem records_written_iff (server : Server) {t : Text} {rs : List Text} (hne : rs ≠ [])
    (hnd : rs.Nodup) (hrec : ∀ r ∈ rs, IsRecord r) (hnew : ∀ r ∈ rs, r ∉ records t) :
    (∀ r, r ∈ records (t ++ unlines (writtenRecords server t rs)) ↔ r ∈ records t ∨ r ∈ rs) ↔
      Blank (openLine t) ∧ writtenRecords server t rs = rs := by
  constructor
  · intro h
    have hsub := writtenRecords_sublist server t rs
    rcases hw : writtenRecords server t rs with _ | ⟨w, ws⟩
    · -- nothing was written, so nothing was missing
      obtain ⟨r, rs', rfl⟩ := List.exists_cons_of_ne_nil hne
      have := (h r).mpr (Or.inr List.mem_cons_self)
      rw [hw, unlines_nil, List.append_nil] at this
      exact absurd this (hnew r List.mem_cons_self)
    · rw [hw] at h hsub
      have hrecw : ∀ x ∈ w :: ws, IsRecord x := fun x hx => hrec x (hsub.subset hx)
      have hw0 : w ∈ rs := hsub.subset List.mem_cons_self
      have hnot : w ∉ ws := (List.nodup_cons.mp (hnd.sublist hsub)).1
      have hb : Blank (openLine t) :=
        blank_of_mem_records_append hrecw (hnew w hw0) hnot ((h w).mpr (Or.inr hw0))
      refine ⟨hb, hsub.eq_of_length_le ?_⟩
      refine (hnd.subperm fun r hr => ?_).length_le
      rcases (mem_records_append hb hrecw).mp ((h r).mpr (Or.inr hr)) with hr' | hr'
      · exact absurd hr' (hnew r hr)
      · exact hr'
  · rintro ⟨hb, hw⟩ r
    rw [hw, mem_records_append hb hrec]

/-- The guard stops no record of an ascending write: on this host always, on a master iff no record
is a substring of the file or of a smaller one. -/
theorem writtenRecords_eq_self_iff (server : Server) {t : Text} {rs : List Text}
    (hb : Blank (openLine t)) (hlt : rs.Pairwise (· < ·)) (hrec : ∀ r ∈ rs, IsRecord r) :
    writtenRecords server t rs = rs ↔
      (server ≠ none → ∀ r ∈ rs, ¬ r <:+: t ∧ ∀ r' ∈ rs, r' < r → ¬ r <:+: r') := by
  cases server with
  | none => simp [writtenRecords]
  | some s =>
    rw [writtenRecords, guardedAdds_eq_self_iff hb hrec, pairwise_iff_of_lt hlt]
    constructor
    · exact fun h _ r hr => ⟨h.1 r hr, fun r' hr' hlt => h.2 r' hr' r hr hlt⟩
    · intro h
      have h' := h (Option.some_ne_none s)
      exact ⟨fun r hr => (h' r hr).1, fun r' hr' r hr hlt => (h' r hr).2 r' hr' hlt⟩

/-! ## A whole synchronisation -/

/-- The copy a row is about. -/
def Difference.key (d : Difference) : ZoneKey := (d.server, d.fileName)

theorem syncRow_text (z : Zones) (d : Difference) (k : ZoneKey) :
    (syncRow z d).text k =
      if k = d.key then z.text k ++ unlines (writtenRecords d.server (z.text k) (sorted d.missing))
      else z.text k := by
  rw [syncRow]
  split
  · rename_i h
    have hnil : ∀ t, writtenRecords d.server t (sorted []) = [] := fun t =>
      List.sublist_nil.mp (writtenRecords_sublist d.server t [])
    rw [h, hnil]
    simp
  · exact writeRecords_text z d.server d.fileName _ k

variable {z : Zones} {reachable : Text → Bool} {mydomain mynetReverse : Text}
  {remoteDnsServers : List Text}

theorem nodup_zoneFiles : (zoneFiles mydomain mynetReverse).Nodup := by
  unfold zoneFiles
  split
  · simp
  · simp [forwardFile_ne_reverseFile]

theorem nodup_keys_compareZone :
    ((compareZone z reachable mydomain mynetReverse remoteDnsServers).map Difference.key).Nodup := by
  have hkey : ∀ f, (compareFile z (servers reachable remoteDnsServers) f).map Difference.key =
      (servers reachable remoteDnsServers).eraseDups.map fun s => (s, f) := fun f => by
    rw [compareFile, List.map_map]
    rfl
  rw [compareZone, List.map_flatMap, List.nodup_flatMap]
  refine ⟨fun f _ => ?_, nodup_zoneFiles.imp fun hne => ?_⟩
  · rw [hkey]
    exact (nodup_eraseDups _).map fun _ _ h => (Prod.mk.inj h).1
  · simp only [Function.onFun, hkey]
    intro k h1 h2
    obtain ⟨_, _, rfl⟩ := List.mem_map.mp h1
    obtain ⟨_, _, h2⟩ := List.mem_map.mp h2
    exact hne (Prod.mk.inj h2).2.symm


/-- A record that some of the servers hold in a file and this copy lacks. -/
def Lacks (z : Zones) (ss : List Server) (k : ZoneKey) (r : Text) : Prop :=
  (∃ s ∈ ss, r ∈ zoneRecords z s k.2) ∧ r ∉ records (z.text k)

theorem isRecord_of_lacks {ss : List Server} {k : ZoneKey} {r : Text} (h : Lacks z ss k r) :
    IsRecord r := by
  obtain ⟨⟨s, _, hr⟩, _⟩ := h
  exact isRecord_of_mem_records hr

theorem mem_missing_iff {ss : List Server} {fileName r : Text} {server : Server} :
    r ∈ (compareServer z fileName ss.eraseDups server).missing ↔ Lacks z ss (server, fileName) r := by
  simp [compareServer, Lacks, zoneRecords]

theorem nodup_missing {held : List Server} {fileName : Text} {server : Server} :
    (compareServer z fileName held server).missing.Nodup :=
  (List.nodup_dedup _).filter _

/-- **A synchronisation** extends each copy by the write of its own row. -/
theorem syncZone_text (loads : Server → Text → Option Text) {fileName : Text}
    (hf : fileName ∈ zoneFiles mydomain mynetReverse) {server : Server}
    (hs : server ∈ servers reachable remoteDnsServers) :
    (syncZone z loads reachable mydomain mynetReverse remoteDnsServers).2.text (server, fileName) =
      z.text (server, fileName) ++ unlines (writtenRecords server (z.text (server, fileName))
        (sorted (compareServer z fileName (servers reachable remoteDnsServers).eraseDups
          server).missing)) := by
  have hmem : compareServer z fileName (servers reachable remoteDnsServers).eraseDups server ∈
      compareZone z reachable mydomain mynetReverse remoteDnsServers :=
    List.mem_flatMap.mpr ⟨fileName, hf, List.mem_map_of_mem (List.mem_eraseDups.mpr hs)⟩
  exact @foldl_at_key _ _ _ _ _ Zones.text Difference.key syncRow
    (fun d t => t ++ unlines (writtenRecords d.server t (sorted d.missing))) syncRow_text _ z
    nodup_keys_compareZone _ hmem

/-- Every copy holds, after the synchronisation, the records some copy held before it. -/
def Converged (z z' : Zones) (ss : List Server) (files : List Text) : Prop :=
  ∀ f ∈ files, ∀ s ∈ ss, ∀ r, r ∈ zoneRecords z' s f ↔ ∃ s' ∈ ss, r ∈ zoneRecords z s' f

/-- The copies agree: a comparison reports no record missing and none alone. -/
def Agree (z : Zones) (reachable : Text → Bool) (mydomain mynetReverse : Text)
    (remoteDnsServers : List Text) : Prop :=
  ∀ d ∈ compareZone z reachable mydomain mynetReverse remoteDnsServers, d.missing = [] ∧ d.alone = []

/-- What a write has to find in a copy that lacks records: an open line of blanks, and, when the
copy is on a master and so behind the substring guard, none of the records as a substring of the
file or of a smaller record it lacks. -/
def WritesReach (z : Zones) (ss : List Server) (k : ZoneKey) : Prop :=
  (∃ r, Lacks z ss k r) → Blank (openLine (z.text k)) ∧
    (k.1 ≠ none → ∀ r, Lacks z ss k r → ¬ r <:+: z.text k ∧
      ∀ r', Lacks z ss k r' → r' < r → ¬ r <:+: r')

/-- One copy holds the union after the synchronisation iff its write reaches it. -/
theorem syncZone_records_iff (loads : Server → Text → Option Text) {fileName : Text}
    (hf : fileName ∈ zoneFiles mydomain mynetReverse) {server : Server}
    (hs : server ∈ servers reachable remoteDnsServers) :
    (∀ r, r ∈ zoneRecords (syncZone z loads reachable mydomain mynetReverse remoteDnsServers).2
        server fileName ↔
      ∃ s' ∈ servers reachable remoteDnsServers, r ∈ zoneRecords z s' fileName) ↔
      WritesReach z (servers reachable remoteDnsServers) (server, fileName) := by
  have hmiss : ∀ r, r ∈ sorted (compareServer z fileName
      (servers reachable remoteDnsServers).eraseDups server).missing ↔
      Lacks z (servers reachable remoteDnsServers) (server, fileName) r := fun r => by
    rw [mem_sorted, mem_missing_iff]
  have hlt : (sorted (compareServer z fileName (servers reachable remoteDnsServers).eraseDups
      server).missing).Pairwise (· < ·) := sorted_strict nodup_missing
  have hunion : ∀ r, (∃ s' ∈ servers reachable remoteDnsServers, r ∈ zoneRecords z s' fileName) ↔
      r ∈ records (z.text (server, fileName)) ∨
        Lacks z (servers reachable remoteDnsServers) (server, fileName) r := fun r => by
    constructor
    · intro h
      by_cases hr : r ∈ records (z.text (server, fileName))
      · exact Or.inl hr
      · exact Or.inr ⟨h, hr⟩
    · rintro (h | h)
      · exact ⟨server, hs, h⟩
      · exact h.1
  simp only [zoneRecords] at hunion ⊢
  rw [syncZone_text loads hf hs]
  simp only [hunion]
  generalize sorted (compareServer z fileName
    (servers reachable remoteDnsServers).eraseDups server).missing = rs at hmiss hlt
  simp only [← hmiss, WritesReach]
  have hrec : ∀ r ∈ rs, IsRecord r := fun r hr => isRecord_of_lacks ((hmiss r).mp hr)
  have hnew : ∀ r ∈ rs, r ∉ records (z.text (server, fileName)) := fun r hr => ((hmiss r).mp hr).2
  by_cases hne : rs = []
  · subst hne
    have hnil : writtenRecords server (z.text (server, fileName)) [] = [] :=
      List.sublist_nil.mp (writtenRecords_sublist _ _ [])
    simp [hnil]
  · have hex : ∃ r, r ∈ rs := List.exists_mem_of_ne_nil rs hne
    have hnd : rs.Nodup := hlt.imp fun h => ne_of_lt h
    rw [records_written_iff server hne hnd hrec hnew]
    constructor
    · rintro ⟨hb, hw⟩ _
      exact ⟨hb, (writtenRecords_eq_self_iff server hb hlt hrec).mp hw⟩
    · intro h
      obtain ⟨hb, hg⟩ := h hex
      exact ⟨hb, (writtenRecords_eq_self_iff server hb hlt hrec).mpr hg⟩

/-- Copies that all hold the union agree. -/
theorem agree_of_converged {z' : Zones}
    (h : Converged z z' (servers reachable remoteDnsServers) (zoneFiles mydomain mynetReverse)) :
    Agree z' reachable mydomain mynetReverse remoteDnsServers := by
  intro d hd
  obtain ⟨f, hf, hd⟩ := List.mem_flatMap.mp hd
  obtain ⟨s, hs, rfl⟩ := List.mem_map.mp hd
  have hs' := List.mem_eraseDups.mp hs
  have hsame : ∀ s1 ∈ servers reachable remoteDnsServers,
      ∀ s2 ∈ servers reachable remoteDnsServers, ∀ r ∈ zoneRecords z' s1 f, r ∈ zoneRecords z' s2 f :=
    fun s1 h1 s2 h2 r hr => (h f hf s2 h2 r).mpr ((h f hf s1 h1 r).mp hr)
  refine ⟨List.eq_nil_iff_forall_not_mem.mpr fun r hr => ?_,
    List.eq_nil_iff_forall_not_mem.mpr fun r hr => ?_⟩
  · obtain ⟨⟨s', hs1, hr1⟩, hno⟩ := mem_missing_iff.mp hr
    exact hno (hsame s' hs1 s hs' r hr1)
  · obtain ⟨hr1, hno⟩ := mem_without.mp hr
    refine hno ?_
    split
    · rename_i hlen
      -- with two servers or more there is another one, and it holds the record too
      obtain ⟨s', hs1, hne⟩ : ∃ s' ∈ (servers reachable remoteDnsServers).eraseDups, s' ≠ s := by
        by_contra hall
        push Not at hall
        have hsub : (servers reachable remoteDnsServers).eraseDups ⊆ [s] := fun x hx =>
          List.mem_singleton.mpr (hall x hx)
        have hle := (nodup_eraseDups (servers reachable remoteDnsServers)).subperm hsub
        have := hle.length_le
        rw [List.length_singleton] at this
        omega
      exact List.mem_flatMap.mpr ⟨s', List.mem_filter.mpr ⟨hs1, by simpa using hne⟩,
        hsame s hs' s' (List.mem_eraseDups.mp hs1) r hr1⟩
    · exact hr1

/-- The zones after a synchronisation hold the union of the zones before it, and the comparison that
follows it finds them agreeing. -/
def SyncConverges (z : Zones) (loads : Server → Text → Option Text) (reachable : Text → Bool)
    (mydomain mynetReverse : Text) (remoteDnsServers : List Text) : Prop :=
  Converged z (syncZone z loads reachable mydomain mynetReverse remoteDnsServers).2
      (servers reachable remoteDnsServers) (zoneFiles mydomain mynetReverse) ∧
    Agree (syncZone z loads reachable mydomain mynetReverse remoteDnsServers).2
      reachable mydomain mynetReverse remoteDnsServers

/-- **Synchronisation converges exactly when every write reaches its copy.** -/
theorem syncZone_converges_iff (z : Zones) (loads : Server → Text → Option Text)
    (reachable : Text → Bool) (mydomain mynetReverse : Text) (remoteDnsServers : List Text) :
    SyncConverges z loads reachable mydomain mynetReverse remoteDnsServers ↔
      ∀ f ∈ zoneFiles mydomain mynetReverse, ∀ s ∈ servers reachable remoteDnsServers,
        WritesReach z (servers reachable remoteDnsServers) (s, f) := by
  constructor
  · rintro ⟨h, -⟩ f hf s hs
    exact (syncZone_records_iff loads hf hs).mp (h f hf s hs)
  · intro h
    have hc : Converged z (syncZone z loads reachable mydomain mynetReverse remoteDnsServers).2
        (servers reachable remoteDnsServers) (zoneFiles mydomain mynetReverse) :=
      fun f hf s hs => (syncZone_records_iff loads hf hs).mpr (h f hf s hs)
    exact ⟨hc, agree_of_converged hc⟩

/-- The zones of this host and of one master whose record for `web` holds the record for `b`. -/
def substringZones : Zones := fun k =>
  if k = (none, "lab.lan".toList) then some "b IN A 10.0.0.1\n".toList
  else if k = (some "ns2".toList, "lab.lan".toList) then some "web IN A 10.0.0.14\n".toList
  else none

/-- **A record that is a substring of another line is never written to a master**: `b IN A 10.0.0.1`
is taken to be there already, because `web IN A 10.0.0.14` holds it. -/
theorem syncZone_loses_substring :
    ¬ SyncConverges substringZones (fun _ _ => none) (fun _ => true) "lab".toList []
      ["ns2".toList] := by
  rintro ⟨h, -⟩
  have := (h "lab.lan".toList (by decide) (some "ns2".toList) (by decide)
    "b IN A 10.0.0.1".toList).mpr ⟨none, by decide, by decide⟩
  exact absurd this (by decide)

end LabInABox.Dns
