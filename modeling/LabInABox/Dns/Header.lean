import LabInABox.Dns.Address
import LabInABox.Dns.Sync

/-!
# The header of a zone file, and the lines under it

Model of the headers a zone of this project starts with: `forward_header` and `reverse_header`
(`libs/dns_zone.py`), and the two that the bootstrap of an automation node writes
(`setup_demo_server/automation-node-lib.sh`). `Written` are the lines that `add_to_dns`,
`add_service_dns`, `add_dns_to_named_rr` and `sync_zone` append under it.

* A line `sync_zone` writes is a record of another master, so it carries the proof that it is one.
* `Separates` says that `records` reads the written lines and nothing of the header.

Results:
* `recordOf_marked`, `recordOf_word`: the lines the loop of `records` leaves out.
* `separates_iff`: `records` separates the two exactly when the header is not the forward one of the
  bootstrap, whose time values are read as records, and it keeps every written line.
* `resource_of_separates`: over such files a comparison reports, and a synchronisation appends,
  resource records only.
-/

namespace LabInABox.Dns

open Text

/-! ## Headers -/

/-- The headers of a zone file. -/
inductive Header
  /-- `forward_header(mydomain, ttl)`. -/
  | forward (mydomain : Text) (ttl : Nat)
  /-- `reverse_header(mydomain, mynet_reverse, ttl)`. -/
  | reverse (mydomain mynetReverse : Text) (ttl : Nat)
  /-- The forward zone of the bootstrap: `AUTOMATION_HOSTNAME`, `_mydomain` and `_myip`. -/
  | bootstrapForward (hostname mydomain myip : Text)
  /-- The reverse zone of the bootstrap: `AUTOMATION_HOSTNAME` and `_mydomain`. -/
  | bootstrapReverse (hostname mydomain : Text)
  deriving DecidableEq

/-- `_SERIAL`. -/
def serial : Nat := 1

/-- `"$TTL {}".format(ttl)`. -/
def ttlLine (ttl : Nat) : Text := "$TTL ".toList ++ ttl.repr.toList

/-- The SOA line of `forward_header` and `reverse_header`. -/
def soaLine (mydomain : Text) : Text :=
  "@ IN SOA ns.".toList ++ mydomain ++ ". admin.".toList ++ mydomain ++ ". ( ".toList ++
    serial.repr.toList ++ " 3600 900 604800 300 )".toList

/-- The NS line of `forward_header` and `reverse_header`. -/
def nsLine (mydomain : Text) : Text := "@ IN NS ns.".toList ++ mydomain ++ ".".toList

/-- The first line of the SOA record the bootstrap writes. -/
def bootstrapSoaLine (hostname mydomain : Text) : Text :=
  "@   IN  SOA     ".toList ++ hostname ++ ". root.".toList ++ mydomain ++ ". (".toList

namespace Header

/-- The lines of a header. -/
def lines : Header → List Text
  | forward mydomain ttl =>
    [ttlLine ttl, soaLine mydomain, nsLine mydomain, "ns IN A 127.0.0.1".toList]
  | reverse mydomain _ ttl => [ttlLine ttl, soaLine mydomain, nsLine mydomain]
  | bootstrapForward hostname mydomain myip =>
    ["$TTL 86400".toList,
      bootstrapSoaLine hostname mydomain,
      "        2019011603  ;Serial".toList,
      "        1m        ;Refresh".toList,
      "        15m        ;Retry".toList,
      "        3w        ;Expire".toList,
      "        2h        ;Minimum TTL".toList,
      ")".toList,
      "        IN  NS      ".toList ++ hostname ++ ".".toList,
      "        IN  A       ".toList ++ myip,
      "        IN  MX 10   ".toList ++ hostname ++ ".".toList,
      []]
  | bootstrapReverse hostname mydomain =>
    ["$TTL 86400".toList,
      bootstrapSoaLine hostname mydomain,
      "        2019011601  ;Serial".toList,
      "        3600        ;Refresh".toList,
      "        1800        ;Retry".toList,
      "        604800      ;Expire".toList,
      "        86400       ;Minimum TTL".toList,
      ")".toList,
      "        IN  NS      ".toList ++ hostname ++ ".".toList,
      "        IN  PTR     ".toList ++ mydomain ++ ".".toList,
      []]

end Header

/-! ## Written lines -/

/-- The lines written under a header. -/
inductive Written
  /-- The address record of `add_to_dns`. -/
  | address (short myip : Text)
  /-- The pointer record of `add_to_dns`. -/
  | pointer (lastOctet vmName : Text)
  /-- The record of `add_service_dns` and `add_dns_to_named_rr`. -/
  | service (dnsEntry ip : Text)
  /-- A record of another master, written by `sync_zone`. -/
  | synced (record : { r : Text // IsRecord r })

/-- The text of a written line. -/
def Written.line : Written → Text
  | address short myip => aRecord short myip
  | pointer lastOctet vmName => ptrRecord lastOctet vmName
  | service dnsEntry ip => serviceRecord dnsEntry ip
  | synced record => record.val

/-- A zone file: a header and the lines written under it. -/
def zoneFile (h : Header) (ws : List Written) : Text := unlines (h.lines ++ ws.map Written.line)

/-- The collapsed form of a line. -/
def collapsed (line : Text) : Text := join (fields line)

/-- `records` reads the written lines, collapsed, and nothing of the header. -/
structure Separates (h : Header) (ws : List Written) : Prop where
  written : ∀ r, r ∈ records (zoneFile h ws) ↔ ∃ w ∈ ws, r = collapsed w.line
  header : ∀ l ∈ h.lines, recordOf l = none

/-- The loop of `records` keeps a written line whole. -/
def Written.Kept (w : Written) : Prop := ';' ∉ w.line ∧ keeps (fields w.line) = true

instance decidableKept (w : Written) : Decidable w.Kept := inferInstanceAs (Decidable (_ ∧ _))

/-! ## The lines the loop leaves out -/

/-- A line that begins with `$`, `@` or `)` has no record. -/
theorem recordOf_marked {c : Char} (hc : c = '$' ∨ c = '@' ∨ c = ')') (t : Text) :
    recordOf (c :: t) = none := by
  have hsemi : (c != ';') = true := by rcases hc with rfl | rfl | rfl <;> decide
  have hspace : isSpace c = false := by rcases hc with rfl | rfl | rfl <;> decide
  have hbare : bare (c :: t) = c :: bare t := List.takeWhile_cons_of_pos hsemi
  obtain ⟨f, fs, hf⟩ := exists_fieldsBy_cons hspace (bare t)
  have hkeeps : keeps ((c :: f) :: fs) = false := by
    rw [keeps, if_pos]
    simpa using hc
  rw [recordOf_eq, hbare, fields, hf, hkeeps, if_neg Bool.false_ne_true]

theorem isField_of_mem_headerWords : ∀ w ∈ headerWords, IsField isSpace w ∧ ';' ∉ w := by decide

/-- A line whose first word is a header word has no record. -/
theorem recordOf_word {b w : Text} {s : Char} (hb : Blank b) (hw : w ∈ headerWords)
    (hs : isSpace s = true) (t : Text) : recordOf (b ++ (w ++ s :: t)) = none := by
  obtain ⟨hfield, hsemi⟩ := isField_of_mem_headerWords w hw
  have hbare : bare (b ++ (w ++ s :: t)) = b ++ (w ++ s :: bare t) := by
    have hne : ∀ {u : Text}, ';' ∉ u → ∀ c ∈ u, (c != ';') = true := fun h c hc => by
      simpa using fun e : c = ';' => h (e ▸ hc)
    have hb' : ';' ∉ b := fun hm => absurd (hb _ hm) (by decide)
    have hs' : (s != ';') = true := by
      simp only [bne_iff_ne, ne_eq]
      rintro rfl
      exact absurd hs (by decide)
    unfold bare
    rw [List.takeWhile_append_of_pos (hne hb'), List.takeWhile_append_of_pos (hne hsemi)]
    exact congrArg (fun u => b ++ (w ++ u)) (List.takeWhile_cons_of_pos hs')
  have hkeeps : ∀ fs, keeps (w :: fs) = false := fun fs => by
    rw [keeps]
    split
    · rfl
    · rfl
  rw [recordOf_eq, hbare, fields, fieldsBy_blank_append hb, fieldsBy_append_sep hfield hs, hkeeps,
    if_neg Bool.false_ne_true]

/-! ## What `records` reads of a zone file -/

variable {h : Header} {ws : List Written}

theorem mem_records_unlines {ls : List Text} (hone : ∀ l ∈ ls, OneLine l) {r : Text} :
    r ∈ records (unlines ls) ↔ ∃ l ∈ ls, recordOf l = some r := by
  rw [mem_records, splitlines_unlines hone]

/-- Only the forward header of the bootstrap has a line that is read as a record. -/
theorem header_iff : (∀ l ∈ h.lines, recordOf l = none) ↔
    ∀ hostname mydomain myip, h ≠ .bootstrapForward hostname mydomain myip := by
  have hblank : Blank "        ".toList := by decide
  have hword : ∀ w ∈ headerWords, ∀ t, recordOf ("        ".toList ++ (w ++ ' ' :: t)) = none :=
    fun w hw t => recordOf_word hblank hw isSpace_space t
  constructor
  · rintro hnone hostname mydomain myip rfl
    have hmin : recordOf "        1m        ;Refresh".toList = some "1m".toList := by decide
    rw [hnone _ (by simp [Header.lines])] at hmin
    exact absurd hmin (by simp)
  · intro hne
    cases h with
    | forward mydomain ttl =>
      simp only [Header.lines, List.forall_mem_cons]
      refine ⟨recordOf_marked (Or.inl rfl) _, recordOf_marked (Or.inr (Or.inl rfl)) _,
        recordOf_marked (Or.inr (Or.inl rfl)) _, by decide, nofun⟩
    | reverse mydomain mynetReverse ttl =>
      simp only [Header.lines, List.forall_mem_cons]
      refine ⟨recordOf_marked (Or.inl rfl) _, recordOf_marked (Or.inr (Or.inl rfl)) _,
        recordOf_marked (Or.inr (Or.inl rfl)) _, nofun⟩
    | bootstrapForward hostname mydomain myip => exact absurd rfl (hne hostname mydomain myip)
    | bootstrapReverse hostname mydomain =>
      simp only [Header.lines, List.forall_mem_cons]
      -- the times are bare numbers here, so they count as a continued SOA
      refine ⟨by decide, recordOf_marked (Or.inr (Or.inl rfl)) _, by decide,
        by decide, by decide, by decide, by decide, by decide,
        hword "IN".toList (by decide) _, hword "IN".toList (by decide) _, by decide, nofun⟩

theorem fields_collapsed (l : Text) : fields (collapsed l) = fields l :=
  fields_join fun _ hm => isField_of_mem_fieldsBy hm

theorem collapsed_isRecord_iff {l : Text} :
    IsRecord (collapsed l) ↔ ';' ∉ l ∧ keeps (fields l) = true := by
  have hf := fields_collapsed l
  have hsemi : ';' ∈ collapsed l ↔ ';' ∈ l := by
    have hflat := fieldsBy_flatten (p := isSpace) l
    have hmem : ';' ∈ (fields l).flatten ↔ ';' ∈ l := by
      rw [fields, hflat, List.mem_filter]
      exact and_iff_left (by decide)
    rw [← hmem, List.mem_flatten]
    constructor
    · intro h
      rcases mem_join h with h | h
      · exact absurd h (by decide)
      · exact h
    · rintro ⟨f, hm, hc⟩
      exact mem_join_of_mem hc hm
  constructor
  · intro h
    exact ⟨fun hm => h.no_comment (hsemi.mpr hm), by rw [← hf]; exact h.keeps⟩
  · rintro ⟨hno, hk⟩
    exact ⟨by rw [hf]; rfl, by rwa [hf], fun hm => hno (hsemi.mp hm)⟩

/-- A line is read as its collapsed form iff that is a record at all. -/
theorem recordOf_collapsed_iff {l : Text} (hk : ';' ∉ l ∧ keeps (fields l) = true) :
    recordOf l = some (collapsed l) := by
  rw [recordOf_eq, bare_eq_self hk.1, if_pos hk.2]
  rfl

/-- **`records` separates header and lines** exactly when the header is not the forward one of the
bootstrap and the loop keeps every written line whole. -/
theorem separates_iff (hone : ∀ l ∈ h.lines ++ ws.map Written.line, OneLine l) :
    Separates h ws ↔
      (∀ hostname mydomain myip, h ≠ .bootstrapForward hostname mydomain myip) ∧
        ∀ w ∈ ws, w.Kept := by
  constructor
  · intro hsep
    refine ⟨header_iff.mp hsep.header, fun w hw => ?_⟩
    have hr := (hsep.written (collapsed w.line)).mpr ⟨w, hw, rfl⟩
    exact collapsed_isRecord_iff.mp (isRecord_of_mem_records hr)
  · rintro ⟨hne, hkept⟩
    have hheader := header_iff.mpr hne
    refine ⟨fun r => ?_, hheader⟩
    rw [zoneFile, mem_records_unlines hone]
    constructor
    · rintro ⟨l, hl, hr⟩
      rcases List.mem_append.mp hl with hl | hl
      · rw [hheader l hl] at hr
        exact absurd hr (by simp)
      · obtain ⟨w, hw, rfl⟩ := List.mem_map.mp hl
        rw [recordOf_collapsed_iff (hkept w hw)] at hr
        exact ⟨w, hw, (Option.some.inj hr).symm⟩
    · rintro ⟨w, hw, rfl⟩
      exact ⟨w.line, List.mem_append_right _ (List.mem_map_of_mem hw),
        recordOf_collapsed_iff (hkept w hw)⟩

/-! ## Comparing and synchronising such files -/

/-- A resource record: a name, the class `IN`, a type and its data. -/
def Resource (line : Text) : Prop :=
  ∃ name type data, fields line = name :: "IN".toList :: type :: data ∧ data ≠ []

theorem Resource.collapsed {l : Text} (hr : Resource l) : Resource (collapsed l) := by
  unfold Resource
  rwa [fields_collapsed]

/-- The copies of a file are zone files that `records` separates, with resource records under their
headers. -/
def CopiesSeparate (z : Zones) (ss : List Server) (fileName : Text) : Prop :=
  ∀ s ∈ ss, ∃ h ws, z.text (s, fileName) = zoneFile h ws ∧ Separates h ws ∧
    ∀ w ∈ ws, Resource w.line

theorem resource_of_copiesSeparate {z : Zones} {ss : List Server} {fileName : Text}
    (hc : CopiesSeparate z ss fileName) {s : Server} (hs : s ∈ ss) {r : Text}
    (hr : r ∈ zoneRecords z s fileName) : Resource r := by
  obtain ⟨h, ws, ht, hsep, hres⟩ := hc s hs
  rw [zoneRecords, ht] at hr
  obtain ⟨w, hw, rfl⟩ := (hsep.written r).mp hr
  exact (hres w hw).collapsed

/-- **A comparison reports resource records only**, and a synchronisation appends nothing else. -/
theorem resource_of_separates {z : Zones} {loads : Server → Text → Option Text}
    {reachable : Text → Bool} {mydomain mynetReverse : Text} {remoteDnsServers : List Text}
    (hc : ∀ f ∈ zoneFiles mydomain mynetReverse,
      CopiesSeparate z (servers reachable remoteDnsServers) f) :
    (∀ d ∈ compareZone z reachable mydomain mynetReverse remoteDnsServers,
      ∀ r ∈ d.missing ++ d.alone, Resource r) ∧
    ∀ f ∈ zoneFiles mydomain mynetReverse, ∀ s ∈ servers reachable remoteDnsServers,
      ∃ rs, (syncZone z loads reachable mydomain mynetReverse remoteDnsServers).2.text (s, f) =
        z.text (s, f) ++ unlines rs ∧ ∀ r ∈ rs, Resource r := by
  have hmissing : ∀ f ∈ zoneFiles mydomain mynetReverse, ∀ s, ∀ r ∈ (compareServer z f
      (servers reachable remoteDnsServers).eraseDups s).missing, Resource r := by
    intro f hf s r hr
    obtain ⟨⟨s', hs', hr'⟩, _⟩ := mem_missing_iff.mp hr
    exact resource_of_copiesSeparate (hc f hf) hs' hr'
  constructor
  · intro d hd r hr
    obtain ⟨f, hf, hd⟩ := List.mem_flatMap.mp hd
    obtain ⟨s, hs, rfl⟩ := List.mem_map.mp hd
    rcases List.mem_append.mp hr with hr | hr
    · exact hmissing f hf s r hr
    · exact resource_of_copiesSeparate (hc f hf) (List.mem_eraseDups.mp hs) (mem_without.mp hr).1
  · intro f hf s hs
    refine ⟨_, syncZone_text loads hf hs, fun r hr => hmissing f hf s r ?_⟩
    exact mem_sorted.mp ((writtenRecords_sublist _ _ _).subset hr)

/-- **`records` reads the written lines and nothing else**, of every header but the forward one of the
bootstrap, and what the masters of such files compare and copy are resource records. -/
theorem records_written_lines_iff (z : Zones) (loads : Server → Text → Option Text)
    (reachable : Text → Bool) (mydomain mynetReverse : Text) (remoteDnsServers : List Text) :
    (∀ (h : Header) (ws : List Written), (∀ l ∈ h.lines ++ ws.map Written.line, OneLine l) →
      (Separates h ws ↔
        (∀ hostname mydomain myip, h ≠ .bootstrapForward hostname mydomain myip) ∧
          ∀ w ∈ ws, w.Kept)) ∧
    ((∀ f ∈ zoneFiles mydomain mynetReverse,
        CopiesSeparate z (servers reachable remoteDnsServers) f) →
      (∀ d ∈ compareZone z reachable mydomain mynetReverse remoteDnsServers,
        ∀ r ∈ d.missing ++ d.alone, Resource r) ∧
      ∀ f ∈ zoneFiles mydomain mynetReverse, ∀ s ∈ servers reachable remoteDnsServers,
        ∃ rs, (syncZone z loads reachable mydomain mynetReverse remoteDnsServers).2.text (s, f) =
          z.text (s, f) ++ unlines rs ∧ ∀ r ∈ rs, Resource r) :=
  ⟨fun _ _ => separates_iff, resource_of_separates⟩

theorem records_written_lines_iff_node :
    Separates (.reverse "lab".toList "0.0.10".toList 300)
      [.pointer "5".toList "n1.lab".toList, .pointer "6".toList "n2.lab".toList] :=
  ((records_written_lines_iff (fun _ => none) (fun _ _ => none) (fun _ => true) "lab".toList [] []).1 _ _
    (by decide)).mpr ⟨nofun, by decide⟩

/-- The zone file of an automation node, with the record of one node under its header. -/
def bootstrapFile : Text :=
  zoneFile (.bootstrapForward "auto.lab".toList "lab".toList "10.0.0.2".toList)
    [.address "n1".toList "10.0.0.5".toList]

/-- **The time values of the bootstrap's SOA are read as records**: a comparison with a master created
by `forward_header` reports them, and the synchronisation writes them to it. -/
theorem bootstrap_times_read :
    ¬ Separates (.bootstrapForward "auto.lab".toList "lab".toList "10.0.0.2".toList)
      [.address "n1".toList "10.0.0.5".toList] ∧
    ¬ Resource "1m".toList ∧
    "1m".toList ∈ records ((syncZone (fun k =>
        if k = (none, "lab.lan".toList) then some bootstrapFile
        else if k = (some "ns2".toList, "lab.lan".toList) then
          some (zoneFile (.forward "lab".toList 300) [])
        else none) (fun _ _ => none) (fun _ => true) "lab".toList [] ["ns2".toList]).2.text
      (some "ns2".toList, "lab.lan".toList)) := by
  refine ⟨fun h => ?_, ?_, by decide +kernel⟩
  · have hmin : recordOf "        1m        ;Refresh".toList = some "1m".toList := by decide
    rw [h.header _ (by simp [Header.lines])] at hmin
    exact absurd hmin (by simp)
  · rintro ⟨name, type, data, hf, _⟩
    have hlen : (fields "1m".toList).length = 1 := by decide
    rw [hf] at hlen
    simp at hlen

end LabInABox.Dns
