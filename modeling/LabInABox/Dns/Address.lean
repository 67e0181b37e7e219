import LabInABox.Text.Lines

/-!
# The address record of a node

Model of what `add_to_dns` (`libs/services.py`) does to this host's forward zone file, when the host
declares the zone already (`ensure_zone` then does nothing): `_dns_remove_other_a` for a node that
replaces its records, and `_dns_add_line`. The reverse zone, the other masters and the hosts file are
not in this file.

* `ptrRecord` and `serviceRecord` are the other lines the DNS service writes.
* The expression `_dns_remove_other_a` builds from a name is modelled by the fields it matches
  (`isReplaced`), for a name without characters that are special in an expression.

Results:
* `splitlines_dnsAddLine`, `splitlines_dnsRemoveOtherA`: the lines of the file after each edit.
* `fields_aRecord`: what is read back of an address record.
-/

namespace LabInABox.Dns

open Text

/-- `vm_name.split(".")[0]`. -/
def shortName (vmName : Text) : Text := vmName.takeWhile (· ≠ '.')

/-- `"{}         IN  A       {}".format(short, myip)`. -/
def aRecord (short myip : Text) : Text := short ++ ' ' :: ("        IN  A      ".toList ++ ' ' :: myip)

/-- `myip.split(".")[-1]`. -/
def lastOctet (myip : Text) : Text := myip.rtakeWhile (· ≠ '.')

/-- `"{}      IN  PTR     {}.".format(last_octet, vm_name)`. -/
def ptrRecord (lastOctet vmName : Text) : Text :=
  lastOctet ++ ' ' :: ("     IN  PTR    ".toList ++ ' ' :: (vmName ++ ['.']))

/-- `"{}\tIN A  {}".format(dns_entry, ip)`. -/
def serviceRecord (dnsEntry ip : Text) : Text := dnsEntry ++ '\t' :: ("IN A ".toList ++ ' ' :: ip)

/-- `line.split()[-1]`. -/
def lastField (line : Text) : Text := (fields line).getLast?.getD []

/-- `any_a.match(line)`: the name, `IN`, `A` and a blank after it. -/
def isReplaced (short line : Text) : Bool :=
  (fields line).take 3 == [short, "IN".toList, "A".toList] &&
    (4 ≤ (fields line).length || line.getLast?.any isSpace)

/-- `_dns_remove_other_a(zone_file, short, keep_ip)`. -/
def dnsRemoveOtherA (short keepIp text : Text) : Text :=
  ['\n'].intercalate ((splitlines text).filter fun line =>
    !(isReplaced short line && lastField line != keepIp)) ++ ['\n']

/-- `_dns_add_line(zone_file, record)`. -/
def dnsAddLine (record text : Text) : Text :=
  if record ∈ splitlines text then text else unlines (splitlines text ++ [record])

/-- `add_to_dns(vm_name, myip, ..., replace)` on the forward zone. -/
def addToDns (vmName myip : Text) (replace : Bool) (text : Text) : Text :=
  dnsAddLine (aRecord (shortName vmName) myip)
    (if replace = true then dnsRemoveOtherA (shortName vmName) myip text else text)

/-! ## The lines of the file -/

theorem splitlines_dnsAddLine (record text : Text) :
    ∃ tail, splitlines (dnsAddLine record text) = splitlines text ++ tail ∧
      (OneLine record → record ∈ splitlines (dnsAddLine record text) ∧ ∀ l ∈ tail, l = record) := by
  unfold dnsAddLine
  by_cases hm : record ∈ splitlines text
  · rw [if_pos hm]
    exact ⟨[], (List.append_nil _).symm, fun _ => ⟨hm, nofun⟩⟩
  · rw [if_neg hm, unlines_append, splitlines_unlines_append oneLine_of_mem_splitlines]
    refine ⟨splitlines (unlines [record]), rfl, fun hone => ?_⟩
    have hline : splitlines (unlines [record]) = [record] :=
      splitlines_unlines fun l hl => by rwa [List.mem_singleton.mp hl]
    rw [hline]
    exact ⟨by simp, fun l hl => List.mem_singleton.mp hl⟩

/-- A removal leaves the lines that are kept, or a blank one. -/
theorem splitlines_dnsRemoveOtherA (short keepIp text : Text) :
    let kept := (splitlines text).filter fun line =>
      !(isReplaced short line && lastField line != keepIp)
    splitlines (dnsRemoveOtherA short keepIp text) = if kept = [] then [[]] else kept := by
  intro kept
  have hone : ∀ l ∈ kept, OneLine l := fun l hl =>
    oneLine_of_mem_splitlines l (List.mem_filter.mp hl).1
  change splitlines (['\n'].intercalate kept ++ ['\n']) = _
  by_cases hk : kept = []
  · rw [if_pos hk, hk]
    rfl
  · rw [if_neg hk, intercalate_append_newline hk, splitlines_unlines hone]

/-! ## A record -/

theorem fields_aRecord {short myip : Text} (hs : IsField isSpace short) (hi : IsField isSpace myip) :
    fields (aRecord short myip) = [short, "IN".toList, "A".toList, myip] := by
  unfold aRecord fields
  have hmid : fieldsBy isSpace "        IN  A      ".toList = ["IN".toList, "A".toList] := by
    decide
  rw [fieldsBy_append_cons_sep isSpace_space, fieldsBy_append_cons_sep isSpace_space, hmid,
    fieldsBy_of_isField hs, fieldsBy_of_isField hi]
  rfl

theorem oneLine_aRecord {short myip : Text} (hs : IsField isSpace short)
    (hi : IsField isSpace myip) : OneLine (aRecord short myip) := by
  have hspace : isLineBreak ' ' = false := by decide
  have hmid : ("        IN  A      ".toList.all fun c => !isLineBreak c) = true := by decide
  intro c hc
  unfold aRecord at hc
  simp only [List.mem_append, List.mem_cons] at hc
  rcases hc with hc | rfl | hc | rfl | hc
  · exact isLineBreak_of_not_isSpace (hs.2 c hc)
  · exact hspace
  · exact Bool.not_eq_true' _ ▸ List.all_eq_true.mp hmid c hc
  · exact hspace
  · exact isLineBreak_of_not_isSpace (hi.2 c hc)

end LabInABox.Dns
