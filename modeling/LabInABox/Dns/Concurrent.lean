import LabInABox.Dns.Service
import LabInABox.SharedFiles

/-!
# Labs created at the same time

Model of the runs that `lab_create` (`scripts/lab_builder_helper.py`) starts as processes of one
automation node, as far as they read and write this host's zone files and its `named.conf` through
`DNSService` (`libs/services.py`).

* A process makes its calls one after the other, as under `_dns_lock`. The lock is its own: between
  two steps of it the processes of other labs make theirs.
* A step is one read or one write of a file: `read_text`, `write_text`, `touch`, and the write of a
  file opened with `"a"`, which lands at the end the file has then. A test that a file exists is part
  of the read after it: no file is ever removed.
* What the masters that answer contribute to a call is given with it (`Remote`): whether one of them
  had to have a zone created, and the records they hold when the zone is synchronised.

Results:
* `Call.noDrop`: a call drops no line but those it removes, whatever it reads.
* `keepsRecords_of_lands`: no record is lost in a run whose writes replace what their process read
  last.
-/

namespace LabInABox.Dns.Concurrent

open Text
open DnsService (wanted isOctetLine isServiceLine recordTargets)

/-! ## Files and changes -/

/-- The files of this host that the calls share. -/
inductive File
  | zone (fileName : Text)
  | namedConf
  deriving DecidableEq

/-- The content of a file, if there is one. -/
abbrev Content := Option Text

/-- The changes made in one step, whatever the file holds. -/
inductive Change
  | touch
  | append (text : Text)
  deriving DecidableEq

namespace Change

/-- The content after a change. -/
def apply : Change → Content → Content
  | touch, c => some (c.getD [])
  | append x, c => some (c.getD [] ++ x)

/-- A record is appended to a zone whose last line is ended. -/
def Fits : File → Change → Content → Prop
  | .zone _, append _, c => openLine (c.getD []) = []
  | _, _, _ => True

instance decidableFits (f : File) (d : Change) (c : Content) : Decidable (Fits f d c) := by
  unfold Fits
  split <;> infer_instance

end Change

/-- What a process still has to do. -/
abbrev Steps := Program File Content Change

/-! ## The helpers -/

/-- `_dns_add_line(zone_file, record)`. -/
def addLine (fileName record : Text) (k : Steps) : Steps :=
  .alter (.zone fileName) .touch <| .read (.zone fileName) fun c =>
    if record ∈ splitlines (c.getD []) then k
    else .write (.zone fileName) (some (dnsAddLine record (c.getD []))) k

/-- `_dns_remove_line` and the removals beside it: `f` of the text, if there is a file. -/
def rewrite (fileName : Text) (f : Text → Text) (k : Steps) : Steps :=
  .read (.zone fileName) fun c =>
    match c with
    | none => k
    | some t => .write (.zone fileName) (some (f t)) k

/-- Steps made under a condition. -/
def onlyWhen (p : Prop) [Decidable p] (f : Steps → Steps) (k : Steps) : Steps := if p then f k else k

/-- `_dns_append_line(zone_file, record)`. -/
def appendRecord (fileName record : Text) (k : Steps) : Steps :=
  .alter (.zone fileName) .touch <| .alter (.zone fileName) (.append (record ++ ['\n'])) k

/-- `'zone "{}"'.format(zone)`. -/
def zonePattern (zone : Text) : Text := "zone \"".toList ++ zone ++ ['"']

/-- `dns_zone.stanza(zone, zone_file)`. -/
def stanza (zone zoneFile : Text) : Text :=
  "zone \"".toList ++ zone ++ "\" \x7b type master; file \"".toList ++ zoneFile ++
    "\"; allow-update \x7b none; \x7d; \x7d;".toList

/-- `_create_local_zone(zone, file_name, header)`. -/
def createLocalZone (zoneDir zone fileName : Text) (header : List Text) (k : Steps) : Steps :=
  let declare : Steps := .alter .namedConf
    (.append ('\n' :: (stanza zone (zoneDir ++ '/' :: fileName) ++ ['\n']))) k
  .read (.zone fileName) fun c =>
    if strip (c.getD []) = [] then
      .write (.zone fileName) (some (['\n'].intercalate header ++ ['\n'])) declare
    else declare

/-- `ensure_zone(None, mydomain, mynet_reverse)`, over the zones it wants. -/
def ensureZone (zoneDir : Text) : List (Text × Text × Header) → Bool → (Bool → Steps) → Steps
  | [], created, k => k created
  | (zone, fileName, header) :: ws, created, k =>
    .read .namedConf fun c =>
      if zonePattern zone <:+: c.getD [] then ensureZone zoneDir ws created k
      else createLocalZone zoneDir zone fileName header.lines (ensureZone zoneDir ws true k)

/-- What the masters that answer contribute to a call. -/
structure Remote where
  created : Bool
  records : Text → List Text

/-- `sync_zone(..)` on this host: its files are compared, then the records it lacks are appended. -/
def syncZone (remote : Remote) : List Text → List (Text × Text) → Steps → Steps
  | [], missing, k => missing.foldr (fun m => appendRecord m.1 m.2) k
  | fileName :: fs, missing, k =>
    .read (.zone fileName) fun c =>
      let lacks := (without (remote.records fileName) (records (c.getD []))).dedup
      syncZone remote fs (missing ++ (sorted lacks).map fun r => (fileName, r)) k

/-- The end of a call: `sync_zone` when a zone had to be created. -/
def finish (remote : Remote) (mydomain mynetReverse : Text) (created : Bool) (k : Steps) : Steps :=
  if created || remote.created then syncZone remote (zoneFiles mydomain mynetReverse) [] k else k

/-! ## The calls -/

/-- A call of a run. -/
inductive Call
  | addToDns (vmName myip mydomain mynetReverse : Text) (replace : Bool) (remote : Remote)
  | delFromDns (vmName myip mydomain mynetReverse : Text)
  | addServiceDns (nodes : List (Text × NodeConfig)) (cluName cluType dnsEntry mydomain : Text)
      (remote : Remote)
  | addDnsToNamedRr (nodes : List (Text × NodeConfig)) (dnsEntry nodeName mydomain : Text)
      (remote : Remote)

/-- The removals of `add_to_dns`: the other pointers of the address, the other addresses of the
name. -/
def dropReplaced (vmName myip mydomain mynetReverse : Text) (replace : Bool) (k : Steps) : Steps :=
  onlyWhen (mynetReverse ≠ [])
      (rewrite (reverseFile mynetReverse) (dropMatched (isOctetLine (lastOctet myip)))) <|
    onlyWhen (replace = true)
      (rewrite (forwardFile mydomain) (dnsRemoveOtherA (shortName vmName) myip)) k

/-- The records of `add_to_dns`. -/
def addRecords (vmName myip mydomain mynetReverse : Text) (k : Steps) : Steps :=
  addLine (forwardFile mydomain) (aRecord (shortName vmName) myip) <|
    onlyWhen (mynetReverse ≠ [])
      (addLine (reverseFile mynetReverse) (ptrRecord (lastOctet myip) vmName)) k

/-- `add_to_dns(vm_name, myip, mydomain, mynet_reverse, .., replace)`. -/
def addToDns (zoneDir vmName myip mydomain mynetReverse : Text) (replace : Bool) (remote : Remote)
    (k : Steps) : Steps :=
  ensureZone zoneDir (wanted mydomain mynetReverse) false fun created =>
    dropReplaced vmName myip mydomain mynetReverse replace <|
      addRecords vmName myip mydomain mynetReverse <| finish remote mydomain mynetReverse created k

/-- The removals of `del_from_dns` from the forward zone. -/
def removeForward (vmName myip mydomain : Text) (k : Steps) : Steps :=
  rewrite (forwardFile mydomain) (dropMatched (· == aRecord (shortName vmName) myip)) <|
    onlyWhen (myip ≠ []) (rewrite (forwardFile mydomain) (dropMatched (isServiceLine myip))) k

/-- `del_from_dns(vm_name, myip, mydomain, mynet_reverse, ..)`. -/
def delFromDns (vmName myip mydomain mynetReverse : Text) (k : Steps) : Steps :=
  onlyWhen (mynetReverse ≠ []) (rewrite (reverseFile mynetReverse)
    (dropMatched (· == ptrRecord (lastOctet myip) vmName))) <| removeForward vmName myip mydomain k

/-- The records of the targets of `add_service_dns`, one after the other. -/
def serve (lan dnsEntry : Text) (targets : List (Text × Text)) (k : Steps) : Steps :=
  targets.foldr (fun target k =>
    rewrite lan (dropMatched (· == serviceRecord dnsEntry target.2))
      (appendRecord lan (serviceRecord dnsEntry target.2) k)) k

/-- `add_service_dns(definition, clu_name, clu_type, dns_entry, mydomain, ..)`. -/
def addServiceDns (zoneDir : Text) (nodes : List (Text × NodeConfig))
    (cluName cluType dnsEntry mydomain : Text) (remote : Remote) (k : Steps) : Steps :=
  let targets := recordTargets nodes cluName cluType
  if targets = [] then k
  else
    ensureZone zoneDir (wanted mydomain []) false fun created =>
      serve (forwardFile mydomain) dnsEntry targets (finish remote mydomain [] created k)

/-- The record of `add_dns_to_named_rr`. -/
def namedRecord (nodes : List (Text × NodeConfig)) (dnsEntry nodeName : Text) : Text :=
  serviceRecord dnsEntry (((nodes.lookup nodeName).bind fun cfg => cfg "myip".toList).getD [])

/-- `add_dns_to_named_rr(definition, dns_entry, node_name, mydomain, ..)`. -/
def addDnsToNamedRr (zoneDir : Text) (nodes : List (Text × NodeConfig))
    (dnsEntry nodeName mydomain : Text) (remote : Remote) (k : Steps) : Steps :=
  let lan := forwardFile mydomain
  let record := namedRecord nodes dnsEntry nodeName
  ensureZone zoneDir (wanted mydomain []) false fun created =>
    .read (.zone lan) fun c =>
      if record ∈ splitlines (c.getD []) ∧ (created || remote.created) = false then k
      else addLine lan record (finish remote mydomain [] created k)

namespace Call

/-- The steps of a call. -/
def steps (zoneDir : Text) (c : Call) (k : Steps) : Steps :=
  match c with
  | addToDns vmName myip mydomain mynetReverse replace remote =>
    Concurrent.addToDns zoneDir vmName myip mydomain mynetReverse replace remote k
  | delFromDns vmName myip mydomain mynetReverse =>
    Concurrent.delFromDns vmName myip mydomain mynetReverse k
  | addServiceDns nodes cluName cluType dnsEntry mydomain remote =>
    Concurrent.addServiceDns zoneDir nodes cluName cluType dnsEntry mydomain remote k
  | addDnsToNamedRr nodes dnsEntry nodeName mydomain remote =>
    Concurrent.addDnsToNamedRr zoneDir nodes dnsEntry nodeName mydomain remote k

/-- The call leaves a record in a zone file. -/
def Adds (g r : Text) : Call → Prop
  | addToDns vmName myip mydomain mynetReverse _ _ =>
    (g = forwardFile mydomain ∧ r = aRecord (shortName vmName) myip) ∨
      (mynetReverse ≠ [] ∧ g = reverseFile mynetReverse ∧ r = ptrRecord (lastOctet myip) vmName)
  | delFromDns .. => False
  | addServiceDns nodes cluName cluType dnsEntry mydomain _ =>
    g = forwardFile mydomain ∧
      ∃ target ∈ recordTargets nodes cluName cluType, r = serviceRecord dnsEntry target.2
  | addDnsToNamedRr nodes dnsEntry nodeName mydomain _ =>
    g = forwardFile mydomain ∧ r = namedRecord nodes dnsEntry nodeName

/-- The call takes a record out of a zone file and does not leave it there. -/
def Removes (g r : Text) : Call → Prop
  | addToDns vmName myip mydomain mynetReverse replace _ =>
    (replace = true ∧ g = forwardFile mydomain ∧ isReplaced (shortName vmName) r = true ∧
        lastField r ≠ myip ∧ r ≠ aRecord (shortName vmName) myip) ∨
      (mynetReverse ≠ [] ∧ g = reverseFile mynetReverse ∧ isOctetLine (lastOctet myip) r = true ∧
        r ≠ ptrRecord (lastOctet myip) vmName)
  | delFromDns vmName myip mydomain mynetReverse =>
    (g = forwardFile mydomain ∧ (r = aRecord (shortName vmName) myip ∨
        myip ≠ [] ∧ isServiceLine myip r = true)) ∨
      (mynetReverse ≠ [] ∧ g = reverseFile mynetReverse ∧ r = ptrRecord (lastOctet myip) vmName)
  | addServiceDns .. | addDnsToNamedRr .. => False

end Call

/-- What a run does. -/
def program (zoneDir : Text) (calls : List Call) : Steps :=
  calls.foldr (fun c k => c.steps zoneDir k) .done

/-- The run adds a record and does not remove it afterwards. -/
def Added (g r : Text) : List Call → Prop
  | [] => False
  | c :: cs => Added g r cs ∨ (c.Adds g r ∧ ∀ c' ∈ cs, ¬ c'.Removes g r)

/-- The run removes a record and does not add it afterwards. -/
def Removed (g r : Text) : List Call → Prop
  | [] => False
  | c :: cs => Removed g r cs ∨ (c.Removes g r ∧ ¬ Added g r cs)

/-! ## What a text keeps -/

/-- A record is one line that is not blank. -/
structure IsLine (r : Text) : Prop where
  oneLine : OneLine r
  notBlank : strip r ≠ []

/-- The file holds the line. -/
def Has (r : Text) (c : Content) : Prop := r ∈ splitlines (c.getD [])

instance decidableHas (r : Text) (c : Content) : Decidable (Has r c) :=
  inferInstanceAs (Decidable (_ ∈ _))

variable {g r x fileName : Text} {k : Steps}

theorem IsLine.ne_nil (h : IsLine r) : r ≠ [] := fun e => h.notBlank (by rw [e]; rfl)

theorem has_dnsAddLine_of_has {t : Text} (h : Has r (some t)) : Has r (some (dnsAddLine x t)) := by
  obtain ⟨tail, htail, -⟩ := splitlines_dnsAddLine x t
  change r ∈ splitlines (dnsAddLine x t)
  rw [htail]
  exact List.mem_append_left _ h

theorem has_dnsAddLine (h : IsLine r) (t : Text) : Has r (some (dnsAddLine r t)) := by
  obtain ⟨_, -, hmem⟩ := splitlines_dnsAddLine r t
  exact (hmem h.oneLine).1

theorem has_dropMatched {matcher : Text → Bool} {t : Text} (h : IsLine r) (hm : matcher r = false)
    (ht : Has r (some t)) : Has r (some (dropMatched matcher t)) := by
  have hq : ¬ ([] : Text) = r := fun e => h.ne_nil e.symm
  obtain ⟨l, hl, rfl⟩ := (exists_splitlines_dropMatched (q := (· = r)) hq).mpr ⟨r, ht, hm, rfl⟩
  exact hl

theorem has_append {c : Content} (hc : openLine (c.getD []) = []) (h : Has r c) :
    Has r (Change.apply (.append x) c) := by
  obtain ⟨tail, htail⟩ := exists_splitlines_append hc x
  change r ∈ splitlines (c.getD [] ++ x)
  rw [htail]
  exact List.mem_append_left _ h

theorem has_append_self {c : Content} (hc : openLine (c.getD []) = []) (h : IsLine r) :
    Has r (Change.apply (.append (r ++ ['\n'])) c) := by
  change r ∈ splitlines (c.getD [] ++ (r ++ '\n' :: []))
  rw [splitlines_append_line _ h.oneLine h.ne_nil, hc]
  exact List.mem_append_right _ List.mem_cons_self

/-- A blank file holds no record. -/
theorem not_has_of_strip {c : Content} (h : IsLine r) (hc : strip (c.getD []) = []) : ¬ Has r c :=
  fun hm => h.notBlank (strip_eq_nil_iff.mpr fun a ha =>
    strip_eq_nil_iff.mp hc a (mem_of_mem_splitlines hm ha))

/-! ## What the helpers do -/

/-- The steps put the record into the zone file. -/
def WillAdd (g r : Text) (k : Steps) : Prop :=
  k.WillAdd Change.apply Change.Fits (Has r) (.zone g)

/-- The steps take the record out of the zone file only where they put it back. -/
def NoDrop (g r : Text) (k : Steps) : Prop :=
  ∀ seen, k.NoDrop Change.apply Change.Fits (Has r) (.zone g) seen

theorem willAdd_read {f : File} {k : Content → Steps} (h : ∀ c, WillAdd g r (k c)) :
    WillAdd g r (.read f k) := fun c => Or.inr (h c)

theorem noDrop_read {f : File} {k : Content → Steps} (h : ∀ c, NoDrop g r (k c)) :
    NoDrop g r (.read f k) := fun _ c => h c _

theorem willAdd_rewrite {f : Text → Text} (h : WillAdd g r k) :
    WillAdd g r (rewrite fileName f k) :=
  willAdd_read fun c => by
    cases c with
    | none => exact h
    | some t => exact Or.inr h

theorem noDrop_rewrite {f : Text → Text} (hk : NoDrop g r k)
    (h : fileName = g → ∀ t, Has r (some t) → Has r (some (f t)) ∨ WillAdd g r k) :
    NoDrop g r (rewrite fileName f k) := fun seen c => by
  cases c with
  | none => exact hk _
  | some t =>
    refine ⟨fun e t₀ ht₀ hr => ?_, hk _⟩
    obtain rfl := File.zone.inj e
    rw [if_pos rfl, Option.mem_some_iff] at ht₀
    exact h rfl t (ht₀ ▸ hr)

/-- A rewrite that drops the lines a test selects. -/
theorem noDrop_dropMatched {matcher : Text → Bool} (hr : IsLine r) (hk : NoDrop g r k)
    (h : fileName = g → matcher r = true → WillAdd g r k) :
    NoDrop g r (rewrite fileName (dropMatched matcher) k) := by
  refine noDrop_rewrite hk fun e t ht => ?_
  cases hm : matcher r with
  | false => exact Or.inl (has_dropMatched hr hm ht)
  | true => exact Or.inr (h e hm)

theorem willAdd_addLine (h : WillAdd g r k) : WillAdd g r (addLine fileName x k) := by
  refine Or.inr (willAdd_read fun c => ?_)
  split
  · exact h
  · exact Or.inr h

theorem willAdd_addLine_self (hr : IsLine r) : WillAdd g r (addLine g r k) := by
  refine Or.inr fun c => ?_
  by_cases hc : r ∈ splitlines (c.getD [])
  · exact Or.inl ⟨rfl, hc⟩
  · refine Or.inr ?_
    dsimp only
    rw [if_neg hc]
    exact Or.inl ⟨rfl, has_dnsAddLine hr _⟩

theorem noDrop_addLine (hk : NoDrop g r k) : NoDrop g r (addLine fileName x k) := fun seen => by
  refine ⟨fun _ c _ hc => Or.inl ?_, fun c => ?_⟩
  · cases c <;> exact hc
  · by_cases hx : x ∈ splitlines (c.getD [])
    · dsimp only
      rw [if_pos hx]
      exact hk _
    · dsimp only
      rw [if_neg hx]
      refine ⟨fun e t₀ ht₀ hr => Or.inl ?_, hk _⟩
      rw [if_pos e, Option.mem_some_iff] at ht₀
      subst ht₀
      exact has_dnsAddLine_of_has hr

theorem willAdd_appendRecord (h : WillAdd g r k) : WillAdd g r (appendRecord fileName x k) :=
  Or.inr (Or.inr h)

theorem willAdd_appendRecord_self (hr : IsLine r) : WillAdd g r (appendRecord g r k) :=
  Or.inr (Or.inl ⟨rfl, fun _ hc => has_append_self hc hr⟩)

theorem noDrop_appendRecord (hk : NoDrop g r k) : NoDrop g r (appendRecord fileName x k) := by
  intro seen
  refine ⟨fun _ c _ hc => Or.inl ?_, fun _ c hfits hc => Or.inl ?_, hk _⟩
  · cases c <;> exact hc
  · exact has_append hfits hc

variable {zoneDir : Text}

theorem willAdd_createLocalZone {zone : Text} {header : List Text} (h : WillAdd g r k) :
    WillAdd g r (createLocalZone zoneDir zone fileName header k) :=
  willAdd_read fun c => by
    split
    · exact Or.inr (Or.inr h)
    · exact Or.inr h

theorem noDrop_createLocalZone {zone : Text} {header : List Text} (hr : IsLine r)
    (hk : NoDrop g r k) : NoDrop g r (createLocalZone zoneDir zone fileName header k) := by
  intro seen c
  by_cases hc : strip (c.getD []) = []
  · dsimp only
    rw [if_pos hc]
    refine ⟨fun e t₀ ht₀ hr₀ => absurd hr₀ ?_, fun e => File.noConfusion e, hk _⟩
    rw [if_pos e, Option.mem_some_iff] at ht₀
    subst ht₀
    exact not_has_of_strip hr hc
  · dsimp only
    rw [if_neg hc]
    exact ⟨fun e => File.noConfusion e, hk _⟩

theorem willAdd_ensureZone {k : Bool → Steps} (h : ∀ b, WillAdd g r (k b)) :
    ∀ (ws : List (Text × Text × Header)) (b : Bool), WillAdd g r (ensureZone zoneDir ws b k)
  | [], b => h b
  | _ :: ws, b => willAdd_read fun c => by
    split
    · exact willAdd_ensureZone h ws b
    · exact willAdd_createLocalZone (willAdd_ensureZone h ws true)

theorem noDrop_ensureZone {k : Bool → Steps} (hr : IsLine r) (h : ∀ b, NoDrop g r (k b)) :
    ∀ (ws : List (Text × Text × Header)) (b : Bool), NoDrop g r (ensureZone zoneDir ws b k)
  | [], b => h b
  | _ :: ws, b => noDrop_read fun c => by
    split
    · exact noDrop_ensureZone hr h ws b
    · exact noDrop_createLocalZone hr (noDrop_ensureZone hr h ws true)

theorem willAdd_syncZone (remote : Remote) (h : WillAdd g r k) :
    ∀ (fs : List Text) (missing : List (Text × Text)), WillAdd g r (syncZone remote fs missing k)
  | [], missing => by
    induction missing with
    | nil => exact h
    | cons m ms ih => exact willAdd_appendRecord ih
  | _ :: fs, _ => willAdd_read fun _ => willAdd_syncZone remote h fs _

theorem noDrop_syncZone (remote : Remote) (h : NoDrop g r k) :
    ∀ (fs : List Text) (missing : List (Text × Text)), NoDrop g r (syncZone remote fs missing k)
  | [], missing => by
    induction missing with
    | nil => exact h
    | cons m ms ih => exact noDrop_appendRecord ih
  | _ :: fs, _ => noDrop_read fun _ => noDrop_syncZone remote h fs _

theorem willAdd_finish {remote : Remote} {mydomain mynetReverse : Text} {b : Bool}
    (h : WillAdd g r k) : WillAdd g r (finish remote mydomain mynetReverse b k) := by
  unfold finish
  split
  · exact willAdd_syncZone remote h _ _
  · exact h

theorem noDrop_finish {remote : Remote} {mydomain mynetReverse : Text} {b : Bool}
    (h : NoDrop g r k) : NoDrop g r (finish remote mydomain mynetReverse b k) := by
  unfold finish
  split
  · exact noDrop_syncZone remote h _ _
  · exact h

/-! ## What the calls do -/

theorem willAdd_serve {dnsEntry : Text} (targets : List (Text × Text)) (h : WillAdd g r k) :
    WillAdd g r (serve fileName dnsEntry targets k) := by
  induction targets with
  | nil => exact h
  | cons _ _ ih => exact willAdd_rewrite (willAdd_appendRecord ih)

theorem willAdd_serve_self {dnsEntry ip : Text} {targets : List (Text × Text)}
    (hr : IsLine (serviceRecord dnsEntry ip)) (h : ∃ target ∈ targets, ip = target.2) :
    WillAdd g (serviceRecord dnsEntry ip) (serve g dnsEntry targets k) := by
  induction targets with
  | nil =>
    obtain ⟨_, hm, -⟩ := h
    exact absurd hm List.not_mem_nil
  | cons target ts ih =>
    obtain ⟨t', hm, rfl⟩ := h
    rcases List.mem_cons.mp hm with rfl | hm
    · exact willAdd_rewrite (willAdd_appendRecord_self hr)
    · exact willAdd_rewrite (willAdd_appendRecord (ih ⟨t', hm, rfl⟩))

theorem noDrop_serve {dnsEntry : Text} (hr : IsLine r) (targets : List (Text × Text))
    (hk : NoDrop g r k) : NoDrop g r (serve fileName dnsEntry targets k) := by
  induction targets with
  | nil => exact hk
  | cons target ts ih =>
    refine noDrop_dropMatched hr (noDrop_appendRecord ih) fun e hm => ?_
    obtain rfl : r = serviceRecord dnsEntry target.2 := beq_iff_eq.mp hm
    exact e ▸ willAdd_appendRecord_self hr

theorem willAdd_onlyWhen {p : Prop} [Decidable p] {f : Steps → Steps} (h : WillAdd g r k)
    (hf : p → WillAdd g r (f k)) : WillAdd g r (onlyWhen p f k) := by
  unfold onlyWhen
  split
  · exact hf ‹_›
  · exact h

theorem noDrop_onlyWhen {p : Prop} [Decidable p] {f : Steps → Steps} (h : NoDrop g r k)
    (hf : p → NoDrop g r (f k)) : NoDrop g r (onlyWhen p f k) := by
  unfold onlyWhen
  split
  · exact hf ‹_›
  · exact h

section Node

variable {vmName myip mydomain mynetReverse : Text} {replace : Bool}

theorem willAdd_dropReplaced (h : WillAdd g r k) :
    WillAdd g r (dropReplaced vmName myip mydomain mynetReverse replace k) :=
  have h' := willAdd_onlyWhen h fun _ => willAdd_rewrite h
  willAdd_onlyWhen h' fun _ => willAdd_rewrite h'

theorem noDrop_dropReplaced (hr : IsLine r) (hk : NoDrop g r k)
    (hptr : mynetReverse ≠ [] → g = reverseFile mynetReverse →
      isOctetLine (lastOctet myip) r = true → WillAdd g r k)
    (hother : replace = true → g = forwardFile mydomain →
      (isReplaced (shortName vmName) r && lastField r != myip) = true → WillAdd g r k) :
    NoDrop g r (dropReplaced vmName myip mydomain mynetReverse replace k) := by
  have hrest : NoDrop g r (onlyWhen (replace = true)
      (rewrite (forwardFile mydomain) (dnsRemoveOtherA (shortName vmName) myip)) k) := by
    refine noDrop_onlyWhen hk fun hrep => ?_
    change NoDrop g r (rewrite _ (dropMatched fun line =>
      isReplaced (shortName vmName) line && lastField line != myip) k)
    exact noDrop_dropMatched hr hk fun e hm => hother hrep e.symm hm
  refine noDrop_onlyWhen hrest fun hne => noDrop_dropMatched hr hrest fun e hm => ?_
  have h := hptr hne e.symm hm
  exact willAdd_onlyWhen h fun _ => willAdd_rewrite h

theorem willAdd_addRecords (h : WillAdd g r k) :
    WillAdd g r (addRecords vmName myip mydomain mynetReverse k) :=
  willAdd_addLine (willAdd_onlyWhen h fun _ => willAdd_addLine h)

theorem willAdd_addRecords_self (hr : IsLine r)
    (h : (g = forwardFile mydomain ∧ r = aRecord (shortName vmName) myip) ∨
      (mynetReverse ≠ [] ∧ g = reverseFile mynetReverse ∧ r = ptrRecord (lastOctet myip) vmName)) :
    WillAdd g r (addRecords vmName myip mydomain mynetReverse k) := by
  rcases h with ⟨rfl, rfl⟩ | ⟨hne, rfl, rfl⟩
  · exact willAdd_addLine_self hr
  · refine willAdd_addLine ?_
    rw [onlyWhen, if_pos hne]
    exact willAdd_addLine_self hr

theorem noDrop_addRecords (h : NoDrop g r k) :
    NoDrop g r (addRecords vmName myip mydomain mynetReverse k) :=
  noDrop_addLine (noDrop_onlyWhen h fun _ => noDrop_addLine h)

theorem willAdd_removeForward (h : WillAdd g r k) :
    WillAdd g r (removeForward vmName myip mydomain k) :=
  willAdd_rewrite (willAdd_onlyWhen h fun _ => willAdd_rewrite h)

theorem noDrop_removeForward (hr : IsLine r) (hk : NoDrop g r k)
    (h : g = forwardFile mydomain →
      (r = aRecord (shortName vmName) myip ∨ myip ≠ [] ∧ isServiceLine myip r = true) →
      WillAdd g r k) : NoDrop g r (removeForward vmName myip mydomain k) := by
  have hservice : NoDrop g r (onlyWhen (myip ≠ [])
      (rewrite (forwardFile mydomain) (dropMatched (isServiceLine myip))) k) :=
    noDrop_onlyWhen hk fun hip => noDrop_dropMatched hr hk fun e hm =>
      h e.symm (Or.inr ⟨hip, hm⟩)
  refine noDrop_dropMatched hr hservice fun e hm => ?_
  have hw := h e.symm (Or.inl (beq_iff_eq.mp hm))
  exact willAdd_onlyWhen hw fun _ => willAdd_rewrite hw

end Node

namespace Call

variable {c : Call}

/-- What comes after a call is added all the same. -/
theorem willAdd (h : WillAdd g r k) : WillAdd g r (c.steps zoneDir k) := by
  cases c with
  | addToDns vmName myip mydomain mynetReverse replace remote =>
    exact willAdd_ensureZone (fun _ =>
      willAdd_dropReplaced (willAdd_addRecords (willAdd_finish h))) _ _
  | delFromDns vmName myip mydomain mynetReverse =>
    have h' : WillAdd g r (removeForward vmName myip mydomain k) := willAdd_removeForward h
    exact willAdd_onlyWhen h' fun _ => willAdd_rewrite h'
  | addServiceDns nodes cluName cluType dnsEntry mydomain remote =>
    change WillAdd g r (ite _ _ _)
    split
    · exact h
    · exact willAdd_ensureZone (fun _ => willAdd_serve _ (willAdd_finish h)) _ _
  | addDnsToNamedRr nodes dnsEntry nodeName mydomain remote =>
    refine willAdd_ensureZone (fun b => willAdd_read fun c => ?_) _ _
    split
    · exact h
    · exact willAdd_addLine (willAdd_finish h)

/-- **A call adds its records**, whatever it reads. -/
theorem willAdd_of_adds (hr : IsLine r) (h : c.Adds g r) : WillAdd g r (c.steps zoneDir k) := by
  cases c with
  | addToDns vmName myip mydomain mynetReverse replace remote =>
    exact willAdd_ensureZone (fun _ => willAdd_dropReplaced (willAdd_addRecords_self hr h)) _ _
  | delFromDns vmName myip mydomain mynetReverse => exact h.elim
  | addServiceDns nodes cluName cluType dnsEntry mydomain remote =>
    obtain ⟨rfl, target, hm, rfl⟩ := h
    change WillAdd _ _ (ite _ _ _)
    rw [if_neg (List.ne_nil_of_mem hm)]
    exact willAdd_ensureZone (fun _ => willAdd_serve_self hr ⟨target, hm, rfl⟩) _ _
  | addDnsToNamedRr nodes dnsEntry nodeName mydomain remote =>
    obtain ⟨rfl, rfl⟩ := h
    refine willAdd_ensureZone (fun b => ?_) _ _
    intro c
    by_cases hc : namedRecord nodes dnsEntry nodeName ∈ splitlines (c.getD [])
    · exact Or.inl ⟨rfl, hc⟩
    · refine Or.inr ?_
      dsimp only
      rw [if_neg fun h => hc h.1]
      exact willAdd_addLine_self hr

/-- **A call drops a record only by removing it**, whatever it reads. -/
theorem noDrop (hr : IsLine r) (hk : NoDrop g r k) (h : c.Removes g r → WillAdd g r k) :
    NoDrop g r (c.steps zoneDir k) := by
  cases c with
  | addToDns vmName myip mydomain mynetReverse replace remote =>
    refine noDrop_ensureZone hr (fun b => ?_) _ _
    refine noDrop_dropReplaced hr (noDrop_addRecords (noDrop_finish hk)) (fun hne hg hm => ?_)
      fun hrep hg hm => ?_
    · by_cases hown : r = ptrRecord (lastOctet myip) vmName
      · exact willAdd_addRecords_self hr (Or.inr ⟨hne, hg, hown⟩)
      · exact willAdd_addRecords (willAdd_finish (h (Or.inr ⟨hne, hg, hm, hown⟩)))
    · by_cases hown : r = aRecord (shortName vmName) myip
      · exact willAdd_addRecords_self hr (Or.inl ⟨hg, hown⟩)
      · rw [Bool.and_eq_true, bne_iff_ne] at hm
        exact willAdd_addRecords (willAdd_finish (h (Or.inl ⟨hrep, hg, hm.1, hm.2, hown⟩)))
  | delFromDns vmName myip mydomain mynetReverse =>
    have h' := noDrop_removeForward hr hk fun hg hrem => h (Or.inl ⟨hg, hrem⟩)
    refine noDrop_onlyWhen h' fun hne => noDrop_dropMatched hr h' fun e hm => ?_
    exact willAdd_removeForward (h (Or.inr ⟨hne, e.symm, beq_iff_eq.mp hm⟩))
  | addServiceDns nodes cluName cluType dnsEntry mydomain remote =>
    change NoDrop g r (ite _ _ _)
    split
    · exact hk
    · exact noDrop_ensureZone hr (fun _ => noDrop_serve hr _ (noDrop_finish hk)) _ _
  | addDnsToNamedRr nodes dnsEntry nodeName mydomain remote =>
    refine noDrop_ensureZone hr (fun b => noDrop_read fun c => ?_) _ _
    split
    · exact hk
    · exact noDrop_addLine (noDrop_finish hk)

theorem not_removes_of_adds (h : c.Adds g r) : ¬ c.Removes g r := by
  cases c with
  | addToDns vmName myip mydomain mynetReverse replace remote =>
    rintro (⟨-, hg, -, -, hne⟩ | ⟨-, hg, -, hne⟩)
    · rcases h with ⟨-, hr⟩ | ⟨-, hg', -⟩
      · exact hne hr
      · exact forwardFile_ne_reverseFile _ _ (hg.symm.trans hg')
    · rcases h with ⟨hg', -⟩ | ⟨-, -, hr⟩
      · exact forwardFile_ne_reverseFile _ _ (hg'.symm.trans hg)
      · exact hne hr
  | delFromDns vmName myip mydomain mynetReverse => exact h.elim
  | addServiceDns nodes cluName cluType dnsEntry mydomain remote => exact id
  | addDnsToNamedRr nodes dnsEntry nodeName mydomain remote => exact id

end Call

/-! ## What the runs do -/

variable {calls : List Call}

theorem not_removed_of_added (h : Added g r calls) : ¬ Removed g r calls := by
  induction calls with
  | nil => exact h.elim
  | cons c cs ih =>
    have hnone : (∀ c' ∈ cs, ¬ c'.Removes g r) → ¬ Removed g r cs := by
      clear ih h
      induction cs with
      | nil => exact fun _ => id
      | cons d ds ihd =>
        rintro hall (hrem | ⟨hrem, -⟩)
        · exact ihd (fun c' hc' => hall c' (List.mem_cons_of_mem _ hc')) hrem
        · exact hall d List.mem_cons_self hrem
    rcases h with h | ⟨hadds, hall⟩
    · rintro (hrem | ⟨-, hnot⟩)
      · exact ih h hrem
      · exact hnot h
    · rintro (hrem | ⟨hrem, -⟩)
      · exact hnone hall hrem
      · exact Call.not_removes_of_adds hadds hrem

/-- **A run adds the records it does not remove afterwards.** -/
theorem willAdd_program (hr : IsLine r) (h : Added g r calls) :
    WillAdd g r (program zoneDir calls) := by
  induction calls with
  | nil => exact h.elim
  | cons c cs ih =>
    rcases h with h | ⟨hadds, -⟩
    · exact Call.willAdd (ih h)
    · exact Call.willAdd_of_adds hr hadds

/-- **A run drops a record only by removing it.** -/
theorem noDrop_program (hr : IsLine r) (h : ¬ Removed g r calls) :
    NoDrop g r (program zoneDir calls) := by
  induction calls with
  | nil => exact fun _ => trivial
  | cons c cs ih =>
    refine Call.noDrop hr (ih fun hrem => h (Or.inl hrem)) fun hrem => ?_
    by_cases hadd : Added g r cs
    · exact willAdd_program hr hadd
    · exact absurd (Or.inr ⟨hrem, hadd⟩) h

/-! ## The labs -/

/-- The state `job_state` reads off a job. -/
inductive JobState
  | running
  | done
  | failed
  deriving DecidableEq

/-- A job of `JOBS_DIR`. -/
structure Job where
  job : Text
  lab : Text
  state : JobState

/-- A job of the lab is running. -/
def Running (jobs : List Job) (lab : Text) : Prop := ∃ j ∈ jobs, j.lab = lab ∧ j.state = .running

instance decidableRunning (jobs : List Job) (lab : Text) : Decidable (Running jobs lab) :=
  inferInstanceAs (Decidable (∃ j ∈ jobs, _))

/-- `lab_create(name, ..)` over the files saved as labs: the refusal, or the jobs with the one it
starts under the id `job`. -/
def labCreate (saved : List Text) (jobs : List Job) (job lab : Text) : Except Text (List Job) :=
  if lab ∉ saved then .error ("no saved lab ".toList ++ lab)
  else
    match jobs.find? fun j => j.lab == lab && j.state == .running with
    | some j =>
      .error ("lab ".toList ++ lab ++ " is already being created (job ".toList ++ j.job ++ [')'])
    | none => .ok (jobs ++ [⟨job, lab, .running⟩])

/-- **Any other lab is accepted**: only a run of the same lab keeps one from starting. -/
theorem labCreate_ok_iff {saved : List Text} {jobs jobs' : List Job} {job lab : Text} :
    labCreate saved jobs job lab = .ok jobs' ↔
      lab ∈ saved ∧ ¬ Running jobs lab ∧ jobs' = jobs ++ [⟨job, lab, .running⟩] := by
  unfold labCreate
  by_cases hs : lab ∈ saved
  · rw [if_neg (not_not_intro hs)]
    cases hf : jobs.find? fun j => j.lab == lab && j.state == .running with
    | some j =>
      have hj := List.find?_some hf
      rw [Bool.and_eq_true, beq_iff_eq, beq_iff_eq] at hj
      have hrun : Running jobs lab := ⟨j, List.mem_of_find?_eq_some hf, hj⟩
      exact ⟨fun h => (by cases h), fun h => absurd hrun h.2.1⟩
    | none =>
      have hnot : ¬ Running jobs lab := by
        rintro ⟨j, hj, hlab, hstate⟩
        refine List.find?_eq_none.mp hf j hj ?_
        rw [Bool.and_eq_true, beq_iff_eq, beq_iff_eq]
        exact ⟨hlab, hstate⟩
      exact ⟨fun h => ⟨hs, hnot, (Except.ok.inj h).symm⟩, fun h => congrArg _ h.2.2.symm⟩
  · rw [if_pos hs]
    exact ⟨fun h => (by cases h), fun h => absurd h.1 hs⟩

/-- The node when the jobs that run begin. -/
def start (zoneDir : Text) (files : File → Content) (jobs : List Job) (calls : Text → List Call) :
    Shared Text File Content Change where
  files := files
  processes lab := ⟨if Running jobs lab then program zoneDir (calls lab) else .done, fun _ => none⟩

/-- **No record is lost**: what a run added and did not remove is in the zone, and so is what was
there and no run removed. -/
structure KeepsRecords (files : File → Content) (jobs : List Job) (calls : Text → List Call)
    (files' : File → Content) : Prop where
  added : ∀ lab, Running jobs lab → ∀ g r, IsLine r → Added g r (calls lab) →
    Has r (files' (.zone g))
  kept : ∀ g r, IsLine r → Has r (files (.zone g)) →
    (∀ lab, Running jobs lab → ¬ Removed g r (calls lab)) → Has r (files' (.zone g))

/-- A run removes a record that another one adds. -/
def Clash (jobs : List Job) (calls : Text → List Call) : Prop :=
  ∃ lab lab', lab ≠ lab' ∧ Running jobs lab ∧ Running jobs lab' ∧
    ∃ g r, Added g r (calls lab) ∧ Removed g r (calls lab')

variable {files : File → Content} {jobs : List Job} {calls : Text → List Call}
  {s : Shared Text File Content Change}

/-- The invariant at the start, for a record no run removes. -/
theorem safe_start (hr : IsLine r) (hkept : ∀ lab, Running jobs lab → ¬ Removed g r (calls lab))
    (hheld : Has r (files (.zone g)) ∨ ∃ lab, Running jobs lab ∧ Added g r (calls lab)) :
    (start zoneDir files jobs calls).Safe Change.apply Change.Fits (Has r) (.zone g) := by
  refine ⟨hheld.imp id fun h => ?_, fun lab => ?_⟩
  · obtain ⟨lab, hrun, hadd⟩ := h
    refine ⟨lab, ?_⟩
    dsimp only [start]
    rw [if_pos hrun]
    exact willAdd_program hr hadd
  · dsimp only [start]
    split
    · exact noDrop_program hr (hkept lab ‹_›) _
    · trivial

/-- **Labs created at the same time lose no record** in a run where every write of a file replaces
what its process read last, and no run removes what another adds. -/
theorem keepsRecords_of_lands (hclash : ¬ Clash jobs calls)
    (hrun : Reached (Shared.Lands Change.Fits) (Shared.step Change.apply)
      (start zoneDir files jobs calls) s)
    (hfin : s.Finished) : KeepsRecords files jobs calls s.files where
  added lab hlab g r hr hadd := by
    have hkept : ∀ lab', Running jobs lab' → ¬ Removed g r (calls lab') := fun lab' hlab' hrem => by
      by_cases he : lab = lab'
      · exact not_removed_of_added hadd (he ▸ hrem)
      · exact hclash ⟨lab, lab', he, hlab, hlab', g, r, hadd, hrem⟩
    exact ((safe_start hr hkept (Or.inr ⟨lab, hlab, hadd⟩)).run hrun).has_of_finished hfin
  kept g r hr hheld hkept := ((safe_start hr hkept (Or.inl hheld)).run hrun).has_of_finished hfin

/-! ## Two labs of one node each -/

/-- Two labs that `lab_create` accepted. -/
def twoJobs : List Job :=
  [⟨"a-1".toList, "a.json".toList, .running⟩, ⟨"b-1".toList, "b.json".toList, .running⟩]

/-- Each adds a node to the zone `lab`. -/
def oneNodeEach (lab : Text) : List Call :=
  let node := if lab = "a.json".toList then "a.lab".toList else "b.lab".toList
  let ip := if lab = "a.json".toList then "10.0.0.1".toList else "10.0.0.2".toList
  [.addToDns node ip "lab".toList [] false ⟨false, fun _ => []⟩]

/-- The node declares the zone, and its file holds one record. -/
def oneZone : File → Content
  | .namedConf => some (stanza "lab".toList "/var/lib/named/lab.lan".toList)
  | .zone _ => some (unlines ["gw IN A 10.0.0.254".toList])

/-- The node after some steps of the two runs: `false` for one of the first, `true` for one of the
second. -/
def twoRuns (schedule : List Bool) : Shared Text File Content Change :=
  (schedule.map fun b => if b then "b.json".toList else "a.json".toList).foldl
    (Shared.step Change.apply) (start "/var/lib/named".toList oneZone twoJobs oneNodeEach)

theorem not_clash_oneNodeEach : ¬ Clash twoJobs oneNodeEach := by
  rintro ⟨_, _, -, -, -, g, r, -, hrem⟩
  rcases hrem with hrem | ⟨⟨hrep, -⟩ | ⟨hne, -⟩, -⟩
  · exact hrem.elim
  · exact Bool.noConfusion hrep
  · exact hne rfl

theorem finished_twoRuns {schedule : List Bool}
    (h : ∀ b ∈ [false, true], b ∈ schedule ∧ ((twoRuns schedule).processes
      (if b then "b.json".toList else "a.json".toList)).program.isDone = true) :
    (twoRuns schedule).Finished := by
  refine Shared.finished_foldl (fun i hi => ?_) fun i hi => ?_
  · obtain ⟨b, -, rfl⟩ := List.mem_map.mp hi
    exact (h b (by cases b <;> decide)).2
  · dsimp only [start]
    refine if_neg ?_
    rintro ⟨j, hj, rfl, -⟩
    rcases List.mem_cons.mp hj with rfl | hj
    · exact hi (List.mem_map.mpr ⟨false, (h false (by decide)).1, rfl⟩)
    · obtain rfl := List.mem_singleton.mp hj
      exact hi (List.mem_map.mpr ⟨true, (h true (by decide)).1, rfl⟩)

/-- One run after the other. -/
theorem keepsRecords_of_lands_in_turn :
    KeepsRecords oneZone twoJobs oneNodeEach
      (twoRuns [false, false, false, false, true, true, true, true]).files :=
  keepsRecords_of_lands not_clash_oneNodeEach (Reached.start.run (by decide))
    (finished_twoRuns (by decide))

/-- **Two labs lose a record**: each reads the zone before the other has written it, so the second
write puts back the zone without the record of the first. -/
theorem not_keepsRecords :
    (∃ jobs, labCreate ["a.json".toList, "b.json".toList] [] "a-1".toList "a.json".toList = .ok jobs ∧
      labCreate ["a.json".toList, "b.json".toList] jobs "b-1".toList "b.json".toList =
        .ok twoJobs) ∧
    Reached (fun _ _ => True) (Shared.step Change.apply)
      (start "/var/lib/named".toList oneZone twoJobs oneNodeEach)
      (twoRuns [false, true, false, true, false, true, false, true]) ∧
    (twoRuns [false, true, false, true, false, true, false, true]).Finished ∧
    ¬ KeepsRecords oneZone twoJobs oneNodeEach
      (twoRuns [false, true, false, true, false, true, false, true]).files := by
  refine ⟨⟨_, rfl, rfl⟩, Reached.start.run (by decide), finished_twoRuns (by decide),
    fun h => ?_⟩
  have hr : IsLine (aRecord "a".toList "10.0.0.1".toList) := by
    constructor <;> decide
  have hheld := h.added "a.json".toList (by decide) "lab.lan".toList _ hr
    (Or.inr ⟨Or.inl ⟨rfl, rfl⟩, fun c hc => absurd hc List.not_mem_nil⟩)
  revert hheld
  decide

end LabInABox.Dns.Concurrent
