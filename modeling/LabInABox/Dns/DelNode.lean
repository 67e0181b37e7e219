import LabInABox.Dns.Names
import LabInABox.Dns.Service

/-!
# Removing a node from every master

What `del_from_dns` leaves of the records of a zone, after any history of calls that wrote them.

* A file is read as `dns_zone.records` reads it, so a record is the same in whatever blanks it is
  stored.
* This host compares lines with the text of a record. A master selects the lines that hold a text
  like it, a dot of the record standing for any character. Service records go by the end of a line.
* The condition `Exactly` is on the lines of a file before the removal: the lines selected are those
  that read as a record of the node.

Results:
* `removed_iff`: lines are removed exactly when they should be, on any file.
* `delFromDns_removes_iff`: after every history, the removal takes the records of the node and no
  others, on every server, iff the lines of each file are selected exactly.
-/

namespace LabInABox.Dns

open Text

namespace DnsService

/-! ## Histories -/

/-- A call that writes records. Which masters answer may differ from call to call. -/
inductive Call where
  | addToDns (reachable : Text → Bool) (vmName myip mydomain mynetReverse : Text)
      (remoteDnsServers : List Text) (replace : Bool)
  | addServiceDns (reachable : Text → Bool) (nodes : List (Text × NodeConfig))
      (cluName cluType dnsEntry mydomain : Text) (remoteDnsServers : List Text)
  | addDnsToNamedRr (reachable : Text → Bool) (nodes : List (Text × NodeConfig))
      (dnsEntry nodeName mydomain : Text) (remoteDnsServers : List Text)
  | syncZone (reachable : Text → Bool) (mydomain mynetReverse : Text) (remoteDnsServers : List Text)

variable (e : Engines) (loads : Server → Text → Option Text)

/-- What a call does. -/
def call (d : DnsService) : Call → DnsService
  | .addToDns reachable vmName myip mydomain mynetReverse remoteDnsServers replace =>
    addToDns e loads reachable vmName myip mydomain mynetReverse remoteDnsServers replace d
  | .addServiceDns reachable nodes cluName cluType dnsEntry mydomain remoteDnsServers =>
    addServiceDns loads reachable nodes cluName cluType dnsEntry mydomain remoteDnsServers d
  | .addDnsToNamedRr reachable nodes dnsEntry nodeName mydomain remoteDnsServers =>
    addDnsToNamedRr loads reachable nodes dnsEntry nodeName mydomain remoteDnsServers d
  | .syncZone reachable mydomain mynetReverse remoteDnsServers =>
    { d with zones := (Dns.syncZone d.zones loads reachable mydomain mynetReverse
        remoteDnsServers).2 }

/-- What a history does. -/
def run (calls : List Call) (d : DnsService) : DnsService := calls.foldl (call e loads) d

/-- The names of the services a history wrote in a zone. -/
def serviceNames (mydomain : Text) (calls : List Call) : List Text :=
  calls.filterMap fun
    | .addServiceDns _ _ _ _ dnsEntry domain _ => if domain = mydomain then some dnsEntry else none
    | .addDnsToNamedRr _ _ dnsEntry _ domain _ => if domain = mydomain then some dnsEntry else none
    | _ => none

/-! ## What goes -/

/-- The records of a forward zone that go with a node: its address, and that of each service name
that points at it. -/
def GoesForward (services : List Text) (vmName myip r : Text) : Prop :=
  r = join [shortName vmName, "IN".toList, "A".toList, myip] ∨
    ∃ service ∈ services, r = join [service, "IN".toList, "A".toList, myip]

/-- The record of a reverse zone that goes with a node. -/
def GoesReverse (vmName myip r : Text) : Prop :=
  r = join [lastOctet myip, "IN".toList, "PTR".toList, vmName ++ ['.']]

/-- Two servers hold the same records in a file. -/
def SameRecords (z : Zones) (s s' : Server) (f : Text) : Prop :=
  ∀ r, r ∈ zoneRecords z s f ↔ r ∈ zoneRecords z s' f

/-- What `del_from_dns` is for, on the servers `ss`. -/
structure Deleted (services : List Text) (z z' : Zones) (ss : List Server)
    (vmName myip mydomain mynetReverse : Text) : Prop where
  forward : ∀ s ∈ ss, ∀ r, r ∈ zoneRecords z' s (forwardFile mydomain) ↔
    r ∈ zoneRecords z s (forwardFile mydomain) ∧ ¬ GoesForward services vmName myip r
  reverse : mynetReverse ≠ [] → ∀ s ∈ ss, ∀ r, r ∈ zoneRecords z' s (reverseFile mynetReverse) ↔
    r ∈ zoneRecords z s (reverseFile mynetReverse) ∧ ¬ GoesReverse vmName myip r
  agree : ∀ f ∈ zoneFiles mydomain mynetReverse, ∀ s ∈ ss, ∀ s' ∈ ss, SameRecords z s s' f →
    SameRecords z' s s' f

/-! ## The condition -/

/-- **The lines selected are those of the records that go**: none is missed, and a record of another
that is on one is on a line that stays as well. -/
structure Exactly (selected goes : Text → Prop) (ls : List Text) : Prop where
  none_missed : ∀ l ∈ ls, ∀ r ∈ records l, goes r → selected l
  none_hit : ∀ l ∈ ls, selected l → ∀ r ∈ records l, ¬ goes r →
    ∃ l' ∈ ls, ¬ selected l' ∧ r ∈ records l'

/-- A line that ends like the record of a service of an address. -/
def EndsAsService (myip l : Text) : Prop := serviceRecord [] myip <:+ l

/-- A line that holds a text like a record, a dot of it standing for any character. -/
def Holds (record l : Text) : Prop := ∃ v, v <:+: l ∧ Like record v

theorem holds_iff_tails {record l : Text} :
    (∃ s ∈ l.tails, Like record (s.take record.length)) ↔ Holds record l := by
  constructor
  · rintro ⟨s, hs, hlike⟩
    exact ⟨_, (List.take_prefix _ s).isInfix.trans ((List.mem_tails s l).mp hs).isInfix, hlike⟩
  · rintro ⟨v, ⟨u, w, rfl⟩, hlike⟩
    refine ⟨v ++ w, (List.mem_tails _ _).mpr ⟨u, (List.append_assoc _ _ _).symm⟩, ?_⟩
    rwa [hlike.length_eq, List.take_left]

instance decidableLike (w v : Text) : Decidable (Like w v) :=
  inferInstanceAs (Decidable (List.Forall₂ _ w v))

instance decidableHolds (record l : Text) : Decidable (Holds record l) :=
  decidable_of_iff _ holds_iff_tails

instance decidableEndsAsService (myip l : Text) : Decidable (EndsAsService myip l) :=
  inferInstanceAs (Decidable (_ <:+ _))

instance decidableGoesForward (services : List Text) (vmName myip r : Text) :
    Decidable (GoesForward services vmName myip r) := inferInstanceAs (Decidable (_ ∨ _))

instance decidableGoesReverse (vmName myip r : Text) : Decidable (GoesReverse vmName myip r) :=
  inferInstanceAs (Decidable (_ = _))

instance decidableExactly (selected goes : Text → Prop) [DecidablePred selected]
    [DecidablePred goes] (ls : List Text) : Decidable (Exactly selected goes ls) :=
  decidable_of_iff ((∀ l ∈ ls, ∀ r ∈ records l, ¬ goes r ∨ selected l) ∧
      ∀ l ∈ ls, ¬ selected l ∨ ∀ r ∈ records l, goes r ∨ ∃ l' ∈ ls, ¬ selected l' ∧ r ∈ records l') (by
    constructor
    · intro h
      exact ⟨fun l hl r hr hg => (h.1 l hl r hr).resolve_left (not_not_intro hg),
        fun l hl hs r hr hg => ((h.2 l hl).resolve_left (not_not_intro hs) r hr).resolve_left hg⟩
    · intro h
      exact ⟨fun l hl r hr => Decidable.not_or_of_imp (h.1 l hl r hr),
        fun l hl => Decidable.not_or_of_imp fun hs r hr => Decidable.or_iff_not_imp_left.mpr (h.2 l hl hs r hr)⟩)

/-- The files of this host and of the masters are selected exactly. -/
structure DelReady (services : List Text) (z : Zones) (ms : List Text)
    (vmName myip mydomain mynetReverse : Text) : Prop where
  forward : Exactly (fun l => l = aRecord (shortName vmName) myip ∨ EndsAsService myip l)
    (GoesForward services vmName myip) (splitlines (z.text (none, forwardFile mydomain)))
  reverse : mynetReverse ≠ [] → Exactly (fun l => l = ptrRecord (lastOctet myip) vmName)
    (GoesReverse vmName myip) (splitlines (z.text (none, reverseFile mynetReverse)))
  masterForward : ∀ m ∈ ms,
    Exactly (fun l => Holds (aRecord (shortName vmName) myip) l ∨ EndsAsService myip l)
      (GoesForward services vmName myip) (lines (z.text (some m, forwardFile mydomain)))
  masterReverse : mynetReverse ≠ [] → ∀ m ∈ ms,
    Exactly (Holds (ptrRecord (lastOctet myip) vmName)) (GoesReverse vmName myip)
      (lines (z.text (some m, reverseFile mynetReverse)))

/-! ## One file -/

variable {selected goes : Text → Prop} {ls : List Text} {t r : Text}

/-- **Lines are removed exactly when they should be.** -/
theorem removed_iff {R R' : List Text} (hR : ∀ r, r ∈ R ↔ ∃ l ∈ ls, r ∈ records l)
    (hR' : ∀ r, r ∈ R' ↔ ∃ l ∈ ls, ¬ selected l ∧ r ∈ records l) :
    (∀ r, r ∈ R' ↔ r ∈ R ∧ ¬ goes r) ↔ Exactly selected goes ls := by
  constructor
  · intro h
    refine ⟨fun l hl r hr hg => ?_, fun l hl _ r hr hg => ?_⟩
    · by_contra hs
      exact ((h r).mp ((hR' r).mpr ⟨l, hl, hs, hr⟩)).2 hg
    · exact (hR' r).mp ((h r).mpr ⟨(hR r).mpr ⟨l, hl, hr⟩, hg⟩)
  · intro h r
    constructor
    · intro hr
      obtain ⟨l, hl, hs, hr⟩ := (hR' r).mp hr
      exact ⟨(hR r).mpr ⟨l, hl, hr⟩, fun hg => hs (h.none_missed l hl r hr hg)⟩
    · rintro ⟨hr, hg⟩
      obtain ⟨l, hl, hr⟩ := (hR r).mp hr
      by_cases hs : selected l
      · exact (hR' r).mpr (h.none_hit l hl hs r hr hg)
      · exact (hR' r).mpr ⟨l, hl, hs, hr⟩

theorem mem_records_lines : r ∈ records t ↔ ∃ l ∈ lines t, r ∈ records l := by
  simp only [mem_records_iff]
  constructor
  · rintro ⟨ρ, hρ, hk, hj⟩
    obtain ⟨l, hl, hρ⟩ := mem_rows_iff_lines.mp hρ
    exact ⟨l, hl, ρ, hρ, hk, hj⟩
  · rintro ⟨l, hl, ρ, hρ, hk, hj⟩
    exact ⟨ρ, mem_rows_iff_lines.mpr ⟨l, hl, hρ⟩, hk, hj⟩

theorem mem_records_oneLine {l : Text} (h : OneLine l) : r ∈ records l ↔ recordOf l = some r := by
  rw [mem_records]
  by_cases hne : l = []
  · subst hne
    rw [recordOf_nil]
    exact ⟨fun ⟨_, hl, _⟩ => absurd hl List.not_mem_nil, fun h => absurd h (by simp)⟩
  · rw [splitlines_of_oneLine hne h]
    simp

theorem mem_records_splitlines : r ∈ records t ↔ ∃ l ∈ splitlines t, r ∈ records l := by
  rw [mem_records]
  constructor
  · rintro ⟨l, hl, hr⟩
    exact ⟨l, hl, (mem_records_oneLine (oneLine_of_mem_splitlines l hl)).mpr hr⟩
  · rintro ⟨l, hl, hr⟩
    exact ⟨l, hl, (mem_records_oneLine (oneLine_of_mem_splitlines l hl)).mp hr⟩

theorem isServiceLine_eq_false_iff {myip l : Text} :
    isServiceLine myip l = false ↔ ¬ EndsAsService myip l := by
  rw [isServiceLine, EndsAsService, ← List.isSuffixOf_iff_suffix, Bool.not_eq_true]

/-! ## The patterns of a master -/

variable {vmName myip mydomain mynetReverse : Text} {z : Zones}

theorem gnuTabs_cons {c : Char} (h : c ≠ '\\') (cs : Text) : gnuTabs (c :: cs) = c :: gnuTabs cs := by
  rw [gnuTabs.eq_def]
  split
  · rename_i he
    exact absurd he (by simp)
  · rename_i he
    exact absurd (List.cons.inj he).1 h
  · rename_i he
    exact absurd (List.cons.inj he).1 h
  · rename_i he
    obtain ⟨rfl, rfl⟩ := List.cons.inj he
    rfl

theorem gnuTabs_escapeDots {w : Text} (h : ∀ c ∈ w, Plain c ∨ c = '.') (rest : Text) :
    gnuTabs (escapeDots w ++ rest) = escapeDots w ++ gnuTabs rest := by
  induction w with
  | nil => rfl
  | cons c cs ih =>
    have htl := ih fun x hx => h x (List.mem_cons_of_mem _ hx)
    have hesc : escapeDots (c :: cs) = (if c = '.' then ['\\', '.'] else [c]) ++ escapeDots cs :=
      List.flatMap_cons
    rw [hesc]
    by_cases hc : c = '.'
    · rw [if_pos hc, List.append_assoc, List.append_assoc, ← htl]
      rfl
    · have hp : c ≠ '\\' := by
        rintro rfl
        rcases h '\\' List.mem_cons_self with hp | hp
        · exact hp (by decide)
        · exact hc hp
      rw [if_neg hc, List.append_assoc, List.append_assoc, List.singleton_append,
        List.singleton_append, gnuTabs_cons hp, htl]

/-- The pattern of the service records of an address is that text at the end of a line. -/
theorem selects_servicePattern_iff (hi : IsIpv4 myip) {l : Text} :
    selects (servicePattern myip) l = true ↔ EndsAsService myip l := by
  have htext : IsRecordText (serviceRecord [] myip) :=
    .cons (by decide) <| (isRecordText_of_all (by decide)).append <| .cons (by decide) hi.word.text
  have hpat : servicePattern myip = escapeDots (serviceRecord [] myip) ++ ['$'] := by
    have hrest : IsRecordText ("IN A ".toList ++ ' ' :: myip) :=
      (isRecordText_of_all (by decide)).append <| .cons (by decide) hi.word.text
    have hesc : "IN A ".toList ++ ' ' :: (escapeDots myip ++ ['$']) =
        escapeDots ("IN A ".toList ++ ' ' :: myip) ++ ['$'] := rfl
    rw [servicePattern, hesc, gnuTabs, gnuTabs_escapeDots hrest.plain_or_dot]
    rfl
  rw [hpat, selects_suffix_iff htext.plain_or_dot, EndsAsService]

theorem selects_record_iff {record l : Text} (h : IsRecordText record) :
    selects record l = true ↔ Holds record l := selects_dots_iff h.plain_or_dot

/-- What `del_from_dns` makes of a file of a master. -/
def removeFile (vmName myip mydomain mynetReverse fileName t : Text) : Text :=
  if mynetReverse ≠ [] ∧ fileName = reverseFile mynetReverse then
    sedDrop (ptrRecord (lastOctet myip) vmName) t
  else if fileName = forwardFile mydomain then
    sedDrop (servicePattern myip) (sedDrop (aRecord (shortName vmName) myip) t)
  else t

theorem delRemote_text (z : Zones) (m : Text) (k : ZoneKey) :
    (delRemote vmName myip mydomain mynetReverse z m).text k =
      if k.1 = some m then removeFile vmName myip mydomain mynetReverse k.2 (z.text k)
      else z.text k := by
  obtain ⟨s, f⟩ := k
  have hne : forwardFile mydomain ≠ reverseFile mynetReverse := forwardFile_ne_reverseFile _ _
  have hdrop : ∀ p, sedDrop p [] = [] := fun p => sedFilter_nil _
  unfold delRemote removeFile
  by_cases hs : s = some m
  · subst hs
    by_cases hrev : mynetReverse = []
    · simp only [hrev, if_true, ne_eq, not_true_eq_false, false_and, if_false,
        edit_text (hdrop _), Prod.mk.injEq, true_and]
      split <;> rfl
    · simp only [hrev, if_false, if_true, ne_eq, not_false_eq_true, true_and,
        edit_text (hdrop _), Prod.mk.injEq]
      by_cases hf : f = reverseFile mynetReverse
      · subst hf
        rw [if_neg hne.symm, if_neg hne.symm, if_pos rfl, if_pos rfl]
      · rw [if_neg hf, if_neg hf]
        split <;> rfl
  · have hk : ∀ f', (s, f) ≠ (some m, f') := fun f' h => hs (Prod.mk.inj h).1
    by_cases hrev : mynetReverse = []
    · simp only [hrev, if_true, edit_text (hdrop _), hs, hk, if_false]
    · simp only [hrev, if_false, edit_text (hdrop _), hs, hk]

theorem removeFile_idem (f t : Text) :
    removeFile vmName myip mydomain mynetReverse f
      (removeFile vmName myip mydomain mynetReverse f t) =
      removeFile vmName myip mydomain mynetReverse f t := by
  unfold removeFile
  split
  · exact sedFilter_idem _ _
  · split
    · simp only [sedDrop, sedFilter_sedFilter]
      congr 1
      funext l
      grind
    · rfl

/-! ## The files of each server -/

/-- The files after the removals on the masters and on this host. -/
def deleted (ms : List Text) (vmName myip mydomain mynetReverse : Text) (z : Zones) : Zones :=
  delLocal vmName myip mydomain mynetReverse
    (ms.foldl (delRemote vmName myip mydomain mynetReverse) z)

theorem delRemote_foldl_text (ms : List Text) (z : Zones) (k : ZoneKey) :
    (ms.foldl (delRemote vmName myip mydomain mynetReverse) z).text k =
      if k.1 ∈ ms.map some then removeFile vmName myip mydomain mynetReverse k.2 (z.text k)
      else z.text k :=
  foldl_masters_text (I := fun _ => True) delRemote_text (fun _ _ _ => trivial)
    (fun f t _ => removeFile_idem f t) ms z k trivial

theorem delLocal_text_of_some (m f : Text) :
    (delLocal vmName myip mydomain mynetReverse z).text (some m, f) = z.text (some m, f) := by
  have hk : ∀ f', ((some m, f) : ZoneKey) ≠ (none, f') := fun f' h => by cases (Prod.mk.inj h).1
  unfold delLocal
  by_cases hrev : mynetReverse = [] <;> by_cases hip : myip = [] <;>
    simp only [hrev, hip, if_true, if_false, edit_text_of_ne _ (hk _)]

theorem deleted_text_master {ms : List Text} {m : Text} (hm : m ∈ ms) (f : Text) :
    (deleted ms vmName myip mydomain mynetReverse z).text (some m, f) =
      removeFile vmName myip mydomain mynetReverse f (z.text (some m, f)) := by
  rw [deleted, delLocal_text_of_some, delRemote_foldl_text, if_pos (List.mem_map_of_mem hm)]

theorem delRemote_foldl_text_none (ms : List Text) (f : Text) :
    (ms.foldl (delRemote vmName myip mydomain mynetReverse) z).text (none, f) =
      z.text (none, f) := by
  rw [delRemote_foldl_text, if_neg (by simp)]

/-- **The lines that stay in the forward zone of this host.** -/
theorem exists_deleted_local_forward {q : Text → Prop} (hq : ¬ q []) (hip : myip ≠ [])
    {ms : List Text} :
    (∃ l ∈ splitlines ((deleted ms vmName myip mydomain mynetReverse z).text
        (none, forwardFile mydomain)), q l) ↔
      ∃ l ∈ splitlines (z.text (none, forwardFile mydomain)),
        ¬ (l = aRecord (shortName vmName) myip ∨ EndsAsService myip l) ∧ q l := by
  have hk : ((none, forwardFile mydomain) : ZoneKey) ≠ (none, reverseFile mynetReverse) := fun h =>
    forwardFile_ne_reverseFile _ _ (Prod.mk.inj h).2
  have hq' : ¬ (isServiceLine myip [] = false ∧ q []) := fun h => hq h.2
  unfold deleted delLocal
  dsimp only
  rw [if_neg hip, exists_splitlines_edit_dropMatched hq,
    exists_splitlines_edit_dropMatched (q := fun l => isServiceLine myip l = false ∧ q l) hq']
  have htext : ∀ z' : Zones, (if mynetReverse = [] then z'
      else z'.edit (none, reverseFile mynetReverse)
        (dropMatched (· == ptrRecord (lastOctet myip) vmName))).text (none, forwardFile mydomain) =
      z'.text (none, forwardFile mydomain) := fun z' => by
    split
    · rfl
    · exact edit_text_of_ne _ hk
  rw [htext, delRemote_foldl_text_none]
  simp only [beq_eq_false_iff_ne, isServiceLine_eq_false_iff, not_or, and_assoc, ne_eq]

/-- **The lines that stay in the reverse zone of this host.** -/
theorem exists_deleted_local_reverse {q : Text → Prop} (hq : ¬ q []) (hip : myip ≠ [])
    {ms : List Text} (hrev : mynetReverse ≠ []) :
    (∃ l ∈ splitlines ((deleted ms vmName myip mydomain mynetReverse z).text
        (none, reverseFile mynetReverse)), q l) ↔
      ∃ l ∈ splitlines (z.text (none, reverseFile mynetReverse)),
        ¬ l = ptrRecord (lastOctet myip) vmName ∧ q l := by
  have hk : ((none, reverseFile mynetReverse) : ZoneKey) ≠ (none, forwardFile mydomain) := fun h =>
    forwardFile_ne_reverseFile _ _ (Prod.mk.inj h).2.symm
  unfold deleted delLocal
  dsimp only
  rw [if_neg hip, if_neg hrev, edit_text_of_ne _ hk, edit_text_of_ne _ hk,
    exists_splitlines_edit_dropMatched hq, delRemote_foldl_text_none]
  simp only [beq_eq_false_iff_ne, ne_eq]

theorem mem_deleted_local_forward (hip : myip ≠ []) {ms : List Text} :
    r ∈ zoneRecords (deleted ms vmName myip mydomain mynetReverse z) none (forwardFile mydomain) ↔
      ∃ l ∈ splitlines (z.text (none, forwardFile mydomain)),
        ¬ (l = aRecord (shortName vmName) myip ∨ EndsAsService myip l) ∧ r ∈ records l := by
  have hq : ¬ r ∈ records [] := List.not_mem_nil
  rw [zoneRecords, mem_records_splitlines, exists_deleted_local_forward hq hip]

theorem mem_deleted_local_reverse (hip : myip ≠ []) {ms : List Text} (hrev : mynetReverse ≠ []) :
    r ∈ zoneRecords (deleted ms vmName myip mydomain mynetReverse z) none
        (reverseFile mynetReverse) ↔
      ∃ l ∈ splitlines (z.text (none, reverseFile mynetReverse)),
        ¬ l = ptrRecord (lastOctet myip) vmName ∧ r ∈ records l := by
  have hq : ¬ r ∈ records [] := List.not_mem_nil
  rw [zoneRecords, mem_records_splitlines, exists_deleted_local_reverse hq hip hrev]

section Files

variable (hn : IsHostName vmName) (hi : IsIpv4 myip) {ms : List Text}

include hn hi

/-- **The lines that stay in the forward zone of a master.** -/
theorem mem_lines_deleted_master_forward {m l : Text} (hm : m ∈ ms) :
    l ∈ lines ((deleted ms vmName myip mydomain mynetReverse z).text (some m, forwardFile mydomain)) ↔
      l ∈ lines (z.text (some m, forwardFile mydomain)) ∧
        ¬ (Holds (aRecord (shortName vmName) myip) l ∨ EndsAsService myip l) := by
  have ha := isRecordText_aRecord hn.short hi.word
  rw [deleted_text_master hm, removeFile, if_neg fun h => forwardFile_ne_reverseFile _ _ h.2,
    if_pos rfl, sedDrop, sedDrop, sedFilter_sedFilter, lines_sedFilter, List.mem_filter]
  simp only [Bool.and_eq_true, Bool.not_eq_true', ← Bool.not_eq_true,
    selects_servicePattern_iff hi, selects_record_iff ha, not_or]
  rw [and_comm (a := ¬ EndsAsService myip _)]

/-- **The lines that stay in the reverse zone of a master.** -/
theorem mem_lines_deleted_master_reverse (hrev : mynetReverse ≠ []) {m l : Text} (hm : m ∈ ms) :
    l ∈ lines ((deleted ms vmName myip mydomain mynetReverse z).text
        (some m, reverseFile mynetReverse)) ↔
      l ∈ lines (z.text (some m, reverseFile mynetReverse)) ∧
        ¬ Holds (ptrRecord (lastOctet myip) vmName) l := by
  have hp := isRecordText_ptrRecord hi.octet hn.word
  rw [deleted_text_master hm, removeFile, if_pos ⟨hrev, rfl⟩, sedDrop, lines_sedFilter,
    List.mem_filter]
  simp only [Bool.not_eq_true', ← Bool.not_eq_true, selects_record_iff hp]

theorem mem_deleted_master_forward {m : Text} (hm : m ∈ ms) :
    r ∈ zoneRecords (deleted ms vmName myip mydomain mynetReverse z) (some m)
        (forwardFile mydomain) ↔
      ∃ l ∈ lines (z.text (some m, forwardFile mydomain)),
        ¬ (Holds (aRecord (shortName vmName) myip) l ∨ EndsAsService myip l) ∧ r ∈ records l := by
  rw [zoneRecords, mem_records_lines]
  simp only [mem_lines_deleted_master_forward hn hi hm, and_assoc]

theorem mem_deleted_master_reverse (hrev : mynetReverse ≠ []) {m : Text} (hm : m ∈ ms) :
    r ∈ zoneRecords (deleted ms vmName myip mydomain mynetReverse z) (some m)
        (reverseFile mynetReverse) ↔
      ∃ l ∈ lines (z.text (some m, reverseFile mynetReverse)),
        ¬ Holds (ptrRecord (lastOctet myip) vmName) l ∧ r ∈ records l := by
  rw [zoneRecords, mem_records_lines]
  simp only [mem_lines_deleted_master_reverse hn hi hrev hm, and_assoc]

/-- **The removals take the records of the node and no others**, on every server, iff the lines of
each file are selected exactly. -/
theorem deleted_iff (services : List Text) :
    Deleted services z (deleted ms vmName myip mydomain mynetReverse z) (none :: ms.map some) vmName
      myip mydomain mynetReverse ↔ DelReady services z ms vmName myip mydomain mynetReverse := by
  have hlines : ∀ {t : Text} (r : Text), r ∈ records t ↔ ∃ l ∈ lines t, r ∈ records l := fun _ =>
    mem_records_lines
  have hsplit : ∀ {t : Text} (r : Text), r ∈ records t ↔ ∃ l ∈ splitlines t, r ∈ records l :=
    fun _ => mem_records_splitlines
  constructor
  · intro h
    exact {
      forward := (removed_iff hsplit fun _ => mem_deleted_local_forward hi.word.1).mp
        (h.forward none List.mem_cons_self)
      reverse := fun hrev => (removed_iff hsplit fun _ => mem_deleted_local_reverse hi.word.1 hrev).mp
        (h.reverse hrev none List.mem_cons_self)
      masterForward := fun m hm => (removed_iff hlines fun _ =>
        mem_deleted_master_forward hn hi hm).mp
          (h.forward (some m) (List.mem_cons_of_mem _ (List.mem_map_of_mem hm)))
      masterReverse := fun hrev m hm => (removed_iff hlines fun _ =>
        mem_deleted_master_reverse hn hi hrev hm).mp
          (h.reverse hrev (some m) (List.mem_cons_of_mem _ (List.mem_map_of_mem hm))) }
  · intro h
    have hfwd : ∀ s ∈ none :: ms.map some, ∀ r, r ∈ zoneRecords (deleted ms vmName myip mydomain
        mynetReverse z) s (forwardFile mydomain) ↔
        r ∈ zoneRecords z s (forwardFile mydomain) ∧ ¬ GoesForward services vmName myip r := by
      intro s hs
      rcases List.mem_cons.mp hs with rfl | hs
      · exact (removed_iff hsplit fun _ => mem_deleted_local_forward hi.word.1).mpr h.forward
      · obtain ⟨m, hm, rfl⟩ := List.mem_map.mp hs
        exact (removed_iff hlines fun _ => mem_deleted_master_forward hn hi hm).mpr
          (h.masterForward m hm)
    have hrev : mynetReverse ≠ [] → ∀ s ∈ none :: ms.map some, ∀ r, r ∈ zoneRecords (deleted ms
        vmName myip mydomain mynetReverse z) s (reverseFile mynetReverse) ↔
        r ∈ zoneRecords z s (reverseFile mynetReverse) ∧ ¬ GoesReverse vmName myip r := by
      intro hne s hs
      rcases List.mem_cons.mp hs with rfl | hs
      · exact (removed_iff hsplit fun _ => mem_deleted_local_reverse hi.word.1 hne).mpr (h.reverse hne)
      · obtain ⟨m, hm, rfl⟩ := List.mem_map.mp hs
        exact (removed_iff hlines fun _ => mem_deleted_master_reverse hn hi hne hm).mpr
          (h.masterReverse hne m hm)
    refine ⟨hfwd, hrev, fun f hf s hs s' hs' hsame r => ?_⟩
    -- what goes does not depend on the server
    rw [zoneFiles, List.mem_cons] at hf
    rcases hf with rfl | hf
    · rw [hfwd s hs, hfwd s' hs', hsame r]
    · split at hf
      · exact absurd hf List.not_mem_nil
      · rename_i hne
        obtain rfl := List.mem_singleton.mp hf
        rw [hrev hne s hs, hrev hne s' hs', hsame r]

end Files

/-- **Removing a node, after any history.** The removal takes the records of the node and no others,
on this host and on every master that answers, iff the lines of each file are selected exactly. -/
theorem delFromDns_removes_iff (hn : IsHostName vmName) (hi : IsIpv4 myip) (e : Engines)
    (loads : Server → Text → Option Text) (calls : List Call) (d₀ : DnsService)
    (reachable : Text → Bool) (mydomain mynetReverse : Text) (remoteDnsServers : List Text) :
    let d := run e loads calls d₀
    let services := serviceNames mydomain calls
    Deleted services d.zones
        (delFromDns reachable vmName myip mydomain mynetReverse remoteDnsServers d).zones
        (servers reachable remoteDnsServers) vmName myip mydomain mynetReverse ↔
      DelReady services d.zones (masters reachable remoteDnsServers) vmName myip mydomain
        mynetReverse := by
  intro d services
  exact deleted_iff hn hi services

/-- Servers that hold nothing yet. -/
def fresh : DnsService := ⟨fun _ => none, fun _ _ => false⟩

/-- A node is added on this host and on `m1`. -/
def addsNode (vmName myip : Text) : Call :=
  .addToDns (fun _ => true) vmName myip "lab".toList "0.0.10".toList ["m1".toList] false

/-- Two nodes and a name that points at both. -/
def twoNodes : List Call :=
  let nodes : List (Text × NodeConfig) := [
    ("node1.lab".toList, fun k => if k = "myip".toList then some "10.0.0.1".toList else none),
    ("node2.lab".toList, fun k => if k = "myip".toList then some "10.0.0.2".toList else none)]
  [addsNode "node1.lab".toList "10.0.0.1".toList, addsNode "node2.lab".toList "10.0.0.2".toList,
    .addDnsToNamedRr (fun _ => true) nodes "svc".toList "node1.lab".toList "lab".toList
      ["m1".toList],
    .addDnsToNamedRr (fun _ => true) nodes "svc".toList "node2.lab".toList "lab".toList
      ["m1".toList]]

theorem delFromDns_removes_iff_two_nodes :
    let d := run plainEngines (fun _ _ => none) twoNodes fresh
    Deleted (serviceNames "lab".toList twoNodes) d.zones
      (delFromDns (fun _ => true) "node1.lab".toList "10.0.0.1".toList "lab".toList
        "0.0.10".toList ["m1".toList] d).zones
      (servers (fun _ => true) ["m1".toList]) "node1.lab".toList "10.0.0.1".toList "lab".toList
      "0.0.10".toList := by
  refine (delFromDns_removes_iff (by decide) (by decide) plainEngines
    (fun _ _ => none) twoNodes fresh (fun _ => true) "lab".toList "0.0.10".toList
    ["m1".toList]).mpr ?_
  have hm : ∀ m ∈ masters (fun _ => true) ["m1".toList], m = "m1".toList := fun m hm => by
    simpa [masters] using hm
  refine ⟨by decide +kernel, fun _ => by decide +kernel, fun m h => ?_, fun _ m h => ?_⟩
  · rw [hm m h]
    decide +kernel
  · rw [hm m h]
    decide +kernel

/-- **Removing a node takes the address of another whose name and address it is inside of.** -/
theorem delFromDns_hits_other :
    let d := run plainEngines (fun _ _ => none) [addsNode "node1.lab".toList "10.0.0.1".toList,
      addsNode "mynode1.lab".toList "10.0.0.14".toList] fresh
    ¬ Deleted [] d.zones (delFromDns (fun _ => true) "node1.lab".toList "10.0.0.1".toList
        "lab".toList "0.0.10".toList ["m1".toList] d).zones
      (servers (fun _ => true) ["m1".toList]) "node1.lab".toList "10.0.0.1".toList "lab".toList
      "0.0.10".toList := by
  intro d h
  have hr := (h.forward (some "m1".toList) (by decide) "mynode1 IN A 10.0.0.14".toList).mpr
    ⟨by decide +kernel, by rintro (h | ⟨_, h, _⟩); exacts [absurd h (by decide), by cases h]⟩
  exact absurd hr (by decide +kernel)

/-- **And it leaves its own where a synchronisation wrote it.** -/
theorem delFromDns_misses_synced :
    let d := run plainEngines (fun _ _ => none) [
      .addToDns (fun _ => false) "node1.lab".toList "10.0.0.1".toList "lab".toList "0.0.10".toList
        ["m1".toList] false,
      .syncZone (fun _ => true) "lab".toList "0.0.10".toList ["m1".toList]] fresh
    ¬ Deleted [] d.zones (delFromDns (fun _ => true) "node1.lab".toList "10.0.0.1".toList
        "lab".toList "0.0.10".toList ["m1".toList] d).zones
      (servers (fun _ => true) ["m1".toList]) "node1.lab".toList "10.0.0.1".toList "lab".toList
      "0.0.10".toList := by
  intro d h
  have hr := (h.forward (some "m1".toList) (by decide) "node1 IN A 10.0.0.1".toList).mp
    (by decide)
  exact hr.2 (Or.inl (by decide))

end DnsService

end LabInABox.Dns
