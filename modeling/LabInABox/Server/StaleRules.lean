import LabInABox.Ipv4
import LabInABox.Text.Words

/-!
# Port forwards left over by a container

Model of `_clean_stale_netavark_dnat_rules` (`libs/mgradm_common.py`), which every check of a healthy
server container runs, and of the nat table it works on.

* The table is its entries in order, and `iptables -t nat -S` prints each on a line of its own. An
  entry has the words of its clauses as they are printed, so a quoted comment is one word with blanks.
* `iptables -t nat -D` deletes the first rule that is printed as it is given.
* `podman inspect` writes the addresses of all networks one after the other.

Results:
* `clean_eq_filter`: the run takes out the rules whose lines it selects, every copy of them.
* `cleans_iff`: these are the stale forwards exactly when the joined addresses occur in the lines of
  the live ones only.
* `isDnat_netavark`, `named_of_leads`: the rules that netavark writes are recognised, and a container
  on one network keeps its own.
-/

namespace LabInABox.Server

open Text

/-! ## The nat table -/

/-- A match or a target of a rule, as it is printed: `-p tcp`, `! --dport 443`, `-j DNAT`. -/
structure Clause where
  negated : Bool
  flag : Text
  args : List Text
  deriving DecidableEq

/-- The words a clause is printed as. -/
def Clause.words (c : Clause) : List Text := (if c.negated then ["!".toList] else []) ++ c.flag :: c.args

/-- What the table holds: the policy of a built-in chain, a chain, and a rule of a chain. -/
inductive Entry
  | policy (name target : Text)
  | chain (name : Text)
  | rule (name : Text) (clauses : List Clause)
  deriving DecidableEq

/-- The line of `iptables -t nat -S`. -/
def Entry.line : Entry → Text
  | policy name target => join ["-P".toList, name, target]
  | chain name => join ["-N".toList, name]
  | rule name clauses => join ("-A".toList :: name :: clauses.flatMap Clause.words)

/-- An entry that is printed on one line. -/
abbrev Row := {e : Entry // OneLine e.line}

/-- The output of `iptables -t nat -S`. -/
def listing (table : List Row) : Text := unlines (table.map fun r => r.1.line)

/-! ## The commands -/

/-- `_UYUNI_SERVER_DPORTS`. -/
def uyuniServerDports : List Text :=
  ["80", "443", "4505:4506", "5556:5557", "9100", "9187", "9800"].map String.toList

/-- `--dport (\S+)`, at the start of a text. -/
def dportAt (s : Text) : Option Text :=
  if "--dport ".toList <+: s then
    let port := (s.drop 8).takeWhile fun c => !isSpace c
    if port = [] then none else some port
  else none

/-- A line of a rule that translates a destination. -/
def IsDnat (line : Text) : Prop :=
  "-A ".toList <+: line ∧ " DNAT ".toList <:+: line ∧ "--to-destination".toList <:+: line

/-- The port that a line names first is one of the server's. -/
def IsServerPort (line : Text) : Prop := ∃ port ∈ uyuniServerDports, firstMatch dportAt line = some port

/-- The lines of the rules that are deleted, given the address that was read. -/
def Selected (realIp line : Text) : Prop := IsDnat line ∧ ¬ realIp <:+: line ∧ IsServerPort line

instance (line : Text) : Decidable (IsDnat line) := inferInstanceAs (Decidable (_ ∧ _ ∧ _))

instance (line : Text) : Decidable (IsServerPort line) := inferInstanceAs (Decidable (∃ port ∈ _, _))

instance (realIp line : Text) : Decidable (Selected realIp line) :=
  inferInstanceAs (Decidable (_ ∧ ¬ _ ∧ _))

/-- The command that deletes the rule of a line. -/
def deleteCommand (line : Text) : Text := "iptables -t nat -D ".toList ++ line.drop 3

/-- The commands of `_clean_stale_netavark_dnat_rules`, from what `podman inspect` and `iptables` print. -/
def deleteCommands (inspected listed : Text) : List Text :=
  let realIp := strip inspected
  if realIp = [] then []
  else ((splitlines listed).filter fun line => decide (Selected realIp line)).map deleteCommand

/-! ## A run -/

/-- The networks a running container is attached to, by its addresses. -/
structure Container where
  addresses : List Nat
  attached : addresses ≠ []
  valid : ∀ a ∈ addresses, a < Ipv4.space

/-- What is compared with the rules: the addresses, one after the other. -/
def Container.realIp (c : Container) : Text := c.addresses.flatMap Ipv4.render

/-- The output of `podman inspect`. -/
def Container.inspect (c : Container) : Text := c.realIp ++ ['\n']

/-- `iptables -t nat -D`: the first rule that is printed so. -/
def deleteRule (table : List Row) (command : Text) : List Row :=
  table.eraseP fun r => decide ("-A ".toList <+: r.1.line ∧ deleteCommand r.1.line = command)

/-- **What a run leaves** of the table. -/
def clean (c : Container) (table : List Row) : List Row :=
  (deleteCommands c.inspect (listing table)).foldl deleteRule table

/-! ## Stale forwards -/

/-- The argument of an option that is not negated. -/
def argOf (flag : String) (clauses : List Clause) : Option Text :=
  clauses.findSome? fun c => if c.negated = false ∧ c.flag = flag.toList then c.args.head? else none

/-- The clauses of a rule. -/
def Entry.clauses : Entry → List Clause
  | rule _ clauses => clauses
  | _ => []

/-- The address that a DNAT rule leads to: what stands before the port. -/
def Entry.destination (e : Entry) : Option Text :=
  if argOf "-j" e.clauses = some "DNAT".toList then
    (argOf "--to-destination" e.clauses).map fun d => d.takeWhile (· ≠ ':')
  else none

/-- A DNAT rule for a port that the server publishes. -/
def Entry.Published (e : Entry) : Prop :=
  e.destination ≠ none ∧ ∃ port ∈ uyuniServerDports, argOf "--dport" e.clauses = some port

/-- A rule that leads to the running container. -/
def Entry.Leads (c : Container) (e : Entry) : Prop := ∃ a ∈ c.addresses, e.destination = some (Ipv4.render a)

/-- A forward that is left over. -/
def Entry.Stale (c : Container) (e : Entry) : Prop := e.Published ∧ ¬ e.Leads c

instance (e : Entry) : Decidable e.Published := inferInstanceAs (Decidable (_ ∧ ∃ port ∈ _, _))

instance (c : Container) (e : Entry) : Decidable (e.Leads c) := inferInstanceAs (Decidable (∃ a ∈ _, _))

instance (c : Container) (e : Entry) : Decidable (e.Stale c) := inferInstanceAs (Decidable (_ ∧ ¬ _))

/-- **The stale forwards go and the live ones stay.** -/
structure Cleans (c : Container) (table : List Row) : Prop where
  exact : clean c table = table.filter fun r => !decide (r.1.Stale c)
  leads : ∀ r ∈ clean c table, r.1.Published → r.1.Leads c
  kept : ∀ r ∈ table, r.1.Leads c → r ∈ clean c table
  again : deleteCommands c.inspect (listing (clean c table)) = []

/-- The text of a rule tells whether it is stale. -/
structure Told (c : Container) (e : Entry) : Prop where
  seen : e.Published → IsDnat e.line ∧ IsServerPort e.line → (c.realIp <:+: e.line ↔ e.Leads c)
  unseen : e.Published → ¬ (IsDnat e.line ∧ IsServerPort e.line) → e.Leads c
  other : ¬ e.Published → IsDnat e.line ∧ IsServerPort e.line → c.realIp <:+: e.line

/-! ## What a run takes out -/

variable {c : Container} {table : List Row}

theorem line_eq_of_deleteCommand {line line' : Text} (h : "-A ".toList <+: line)
    (h' : "-A ".toList <+: line') (heq : deleteCommand line = deleteCommand line') : line = line' := by
  obtain ⟨rest, rfl⟩ := h
  obtain ⟨rest', rfl⟩ := h'
  exact congrArg ("-A ".toList ++ ·) (List.append_cancel_left heq)

/-- A command of a selected line passes over the rules that are not selected. -/
theorem deleteRule_kept {realIp : Text} {kept : List Row} (hkept : ∀ r ∈ kept, ¬ Selected realIp r.1.line)
    {row : Row} (hrow : Selected realIp row.1.line) (rows : List Row) :
    deleteRule (kept ++ row :: rows) (deleteCommand row.1.line) = kept ++ rows := by
  unfold deleteRule
  rw [List.eraseP_append_right, List.eraseP_cons_of_pos]
  · simpa using hrow.1.1
  · intro r hr h
    rw [decide_eq_true_eq] at h
    refine hkept r hr ?_
    rw [line_eq_of_deleteCommand h.1 hrow.1.1 h.2]
    exact hrow

/-- The commands of the lines take the selected rules out one by one. -/
theorem foldl_deleteRule (realIp : Text) : ∀ (rows kept : List Row), (∀ r ∈ kept, ¬ Selected realIp r.1.line) →
    ((((rows.map fun r => r.1.line).filter fun line => decide (Selected realIp line)).map
      deleteCommand).foldl deleteRule (kept ++ rows)) =
      kept ++ rows.filter fun r => !decide (Selected realIp r.1.line)
  | [], _, _ => rfl
  | row :: rows, kept, hkept => by
    by_cases h : Selected realIp row.1.line
    · rw [List.map_cons, List.filter_cons_of_pos (by simpa using h), List.map_cons, List.foldl_cons,
        deleteRule_kept hkept h, foldl_deleteRule realIp rows kept hkept,
        List.filter_cons_of_neg (by simpa using h)]
    · have hkept' : ∀ r ∈ kept ++ [row], ¬ Selected realIp r.1.line := by
        intro r hr
        rcases List.mem_append.mp hr with hr | hr
        · exact hkept r hr
        · rwa [List.mem_singleton.mp hr]
      have ih := foldl_deleteRule realIp rows (kept ++ [row]) hkept'
      rw [List.append_assoc, List.append_assoc, List.singleton_append, List.singleton_append] at ih
      rw [List.map_cons, List.filter_cons_of_neg (by simpa using h), ih,
        List.filter_cons_of_pos (by simpa using h)]

theorem realIp_noSpace : ∀ ch ∈ c.realIp, isSpace ch = false := fun ch hch => by
  obtain ⟨a, -, hch⟩ := List.mem_flatMap.mp hch
  exact (Ipv4.isField_render a).2 ch hch

theorem realIp_ne_nil : c.realIp ≠ [] := by
  obtain ⟨a, ha⟩ := List.exists_mem_of_ne_nil _ c.attached
  obtain ⟨ch, hch⟩ := List.exists_mem_of_ne_nil _ (Ipv4.isField_render a).1
  exact List.ne_nil_of_mem (List.mem_flatMap.mpr ⟨a, ha, hch⟩)

theorem strip_inspect : strip c.inspect = c.realIp :=
  strip_append_blank realIp_ne_nil (fun ch h => realIp_noSpace ch (List.mem_of_mem_head? h))
    (fun ch h => realIp_noSpace ch (List.mem_of_getLast? h)) (by decide)

/-- The commands are those of the selected lines of the table. -/
theorem deleteCommands_listing : deleteCommands c.inspect (listing table) =
    ((table.map fun r => r.1.line).filter fun line => decide (Selected c.realIp line)).map deleteCommand := by
  have hlines : splitlines (listing table) = table.map fun r => r.1.line :=
    splitlines_unlines fun line hline => by
      obtain ⟨r, -, rfl⟩ := List.mem_map.mp hline
      exact r.2
  unfold deleteCommands
  simp only [strip_inspect, hlines]
  exact if_neg realIp_ne_nil

/-- **A run takes out the rules whose lines it selects**, every copy of them. -/
theorem clean_eq_filter : clean c table = table.filter fun r => !decide (Selected c.realIp r.1.line) := by
  unfold clean
  rw [deleteCommands_listing]
  exact foldl_deleteRule c.realIp table [] fun r hr => absurd hr List.not_mem_nil

/-- A second run deletes nothing. -/
theorem deleteCommands_clean : deleteCommands c.inspect (listing (clean c table)) = [] := by
  rw [deleteCommands_listing, clean_eq_filter, List.map_eq_nil_iff, List.filter_eq_nil_iff]
  intro line hline
  obtain ⟨r, hr, rfl⟩ := List.mem_map.mp hline
  simpa using (List.mem_filter.mp hr).2

/-! ## The selected rules and the stale ones -/

theorem selected_iff_stale {e : Entry} : (Selected c.realIp e.line ↔ e.Stale c) ↔ Told c e := by
  constructor
  · intro h
    refine ⟨fun hp hlooks => ?_, fun hp hlooks => ?_, fun hp hlooks => ?_⟩
    · constructor
      · intro hin
        by_contra hleads
        exact (h.mpr ⟨hp, hleads⟩).2.1 hin
      · intro hleads
        by_contra hin
        exact (h.mp ⟨hlooks.1, hin, hlooks.2⟩).2 hleads
    · by_contra hleads
      have hsel := h.mpr ⟨hp, hleads⟩
      exact hlooks ⟨hsel.1, hsel.2.2⟩
    · by_contra hin
      exact hp (h.mp ⟨hlooks.1, hin, hlooks.2⟩).1
  · intro h
    constructor
    · intro hsel
      have hp : e.Published := by
        by_contra hp
        exact hsel.2.1 (h.other hp ⟨hsel.1, hsel.2.2⟩)
      exact ⟨hp, fun hleads => hsel.2.1 ((h.seen hp ⟨hsel.1, hsel.2.2⟩).mpr hleads)⟩
    · intro hstale
      have hlooks : IsDnat e.line ∧ IsServerPort e.line := by
        by_contra hlooks
        exact hstale.2 (h.unseen hstale.1 hlooks)
      exact ⟨hlooks.1, fun hin => hstale.2 ((h.seen hstale.1 hlooks).mp hin), hlooks.2⟩

/-- **Exactly when the stale forwards go and the live ones stay.** -/
theorem cleans_iff (c : Container) (table : List Row) : Cleans c table ↔ ∀ r ∈ table, Told c r.1 := by
  have hexact : (clean c table = table.filter fun r => !decide (r.1.Stale c)) ↔
      ∀ r ∈ table, Told c r.1 := by
    rw [clean_eq_filter]
    constructor
    · intro h r hr
      have hmem : r ∈ table.filter (fun r => !decide (Selected c.realIp r.1.line)) ↔
          r ∈ table.filter fun r => !decide (r.1.Stale c) := by rw [h]
      rw [← selected_iff_stale, ← not_iff_not]
      simpa [hr] using hmem
    · intro h
      refine List.filter_congr fun r hr => ?_
      have hiff := selected_iff_stale.mpr (h r hr)
      simp [hiff]
  constructor
  · exact fun h => hexact.mp h.exact
  · intro h
    have hclean := hexact.mpr h
    refine ⟨hclean, fun r hr hp => ?_, fun r hr hleads => ?_, deleteCommands_clean⟩
    · rw [hclean, List.mem_filter] at hr
      by_contra hleads
      have hstale : r.1.Stale c := ⟨hp, hleads⟩
      simp [hstale] at hr
    · rw [hclean, List.mem_filter]
      refine ⟨hr, ?_⟩
      have hstale : ¬ r.1.Stale c := fun hs => hs.2 hleads
      simp [hstale]

/-! ## The rules that netavark writes -/

/-- The rule of a published port. -/
def forward (name proto port dest : Text) : Entry :=
  .rule name [⟨false, "-p".toList, [proto]⟩, ⟨false, "-m".toList, [proto]⟩,
    ⟨false, "--dport".toList, [port]⟩, ⟨false, "-j".toList, ["DNAT".toList]⟩,
    ⟨false, "--to-destination".toList, [dest]⟩]

section Forward

variable {name proto port dest : Text}

theorem forward_line : (forward name proto port dest).line =
    join ["-A".toList, name, "-p".toList, proto, "-m".toList, proto] ++ ([' '] ++
      ("--dport ".toList ++ (port ++ (" -j DNAT --to-destination ".toList ++ dest)))) := by
  have hwords : (forward name proto port dest).line =
      join (["-A".toList, name, "-p".toList, proto, "-m".toList, proto] ++
        ["--dport".toList, port, "-j".toList, "DNAT".toList, "--to-destination".toList, dest]) := rfl
  rw [hwords, join_append (List.cons_ne_nil _ _)]
  simp [lead]

theorem isDnat_forward : IsDnat (forward name proto port dest).line := by
  rw [forward_line]
  refine ⟨?_, ?_, ?_⟩
  · rw [join_cons]
    exact ⟨name ++ lead ["-p".toList, proto, "-m".toList, proto] ++ ([' '] ++
      ("--dport ".toList ++ (port ++ (" -j DNAT --to-destination ".toList ++ dest)))), by simp [lead]⟩
  · exact ⟨join ["-A".toList, name, "-p".toList, proto, "-m".toList, proto] ++ ([' '] ++
      ("--dport ".toList ++ (port ++ " -j".toList))), "--to-destination ".toList ++ dest, by simp⟩
  · exact ⟨join ["-A".toList, name, "-p".toList, proto, "-m".toList, proto] ++ ([' '] ++
      ("--dport ".toList ++ (port ++ " -j DNAT ".toList))), ' ' :: dest, by simp⟩

theorem needle_dport : Needle "--dport".toList := ⟨by decide, by decide⟩

/-- The port that is read is that of the rule, unless the names before it contain the option. -/
theorem firstMatch_forward (hname : ¬ "--dport".toList <:+: name) (hproto : ¬ "--dport".toList <:+: proto)
    (hport : IsField isSpace port) :
    firstMatch dportAt (forward name proto port dest).line = some port := by
  have hbefore : ¬ "--dport".toList <:+: join ["-A".toList, name, "-p".toList, proto, "-m".toList, proto] := by
    refine Starts.not_isInfix (Or.inr rfl) needle_dport fun w hw => ?_
    simp only [List.mem_cons, List.not_mem_nil, or_false] at hw
    rcases hw with rfl | rfl | rfl | rfl | rfl | rfl
    · decide
    · exact hname
    · decide
    · exact hproto
    · decide
    · exact hproto
  have hnone : ∀ s, ¬ "--dport".toList <+: s → dportAt s = none := fun s hs =>
    if_neg fun h => hs (List.IsPrefix.trans (by decide) h)
  rw [forward_line, firstMatch_words needle_dport hnone hbefore (Or.inl rfl)]
  refine firstMatch_eq_some (by simp) ?_
  have htake : (port ++ (" -j DNAT --to-destination ".toList ++ dest)).takeWhile (fun c => !isSpace c) = port := by
    rw [List.takeWhile_append_of_pos fun c hc => by simp [hport.2 c hc]]
    simp [isSpace_space]
  have hdrop : ("--dport ".toList ++ (port ++ (" -j DNAT --to-destination ".toList ++ dest))).drop 8 =
      port ++ (" -j DNAT --to-destination ".toList ++ dest) := rfl
  rw [dportAt, if_pos (List.prefix_append _ _), hdrop, htake]
  exact if_neg hport.1

theorem argOf_forward : argOf "--dport" (forward name proto port dest).clauses = some port := rfl

theorem destination_forward :
    (forward name proto port dest).destination = some (dest.takeWhile (· ≠ ':')) := rfl

/-- **The rules that netavark writes are recognised.** -/
theorem published_forward_iff : (forward name proto port dest).Published ↔ port ∈ uyuniServerDports := by
  unfold Entry.Published
  rw [destination_forward, argOf_forward]
  simp

/-- What is left to tell apart of such a rule is the address. -/
theorem told_forward_iff (hname : ¬ "--dport".toList <:+: name) (hproto : ¬ "--dport".toList <:+: proto)
    (hport : IsField isSpace port) : Told c (forward name proto port dest) ↔
      (port ∈ uyuniServerDports →
        (c.realIp <:+: (forward name proto port dest).line ↔ (forward name proto port dest).Leads c)) := by
  have hserver : IsServerPort (forward name proto port dest).line ↔ port ∈ uyuniServerDports := by
    unfold IsServerPort
    rw [firstMatch_forward hname hproto hport]
    simp
  constructor
  · exact fun h hp => h.seen (published_forward_iff.mpr hp) ⟨isDnat_forward, hserver.mpr hp⟩
  · intro h
    refine ⟨fun hp _ => h (published_forward_iff.mp hp), fun hp hlooks => ?_, fun hp hlooks => ?_⟩
    · exact absurd ⟨isDnat_forward, hserver.mpr (published_forward_iff.mp hp)⟩ hlooks
    · exact absurd (published_forward_iff.mpr (hserver.mp hlooks.2)) hp

/-- **A container on one network keeps its own rules.** -/
theorem named_of_leads {a : Nat} (hone : c.addresses = [a])
    (h : (forward name proto port dest).Leads c) : c.realIp <:+: (forward name proto port dest).line := by
  obtain ⟨b, hb, hdest⟩ := h
  rw [hone, List.mem_singleton] at hb
  rw [destination_forward, Option.some.injEq, hb] at hdest
  have hreal : c.realIp = Ipv4.render a := by
    unfold Container.realIp
    rw [hone, List.flatMap_singleton]
  have hsuffix : dest <:+ (forward name proto port dest).line := by
    rw [forward_line]
    exact ⟨join ["-A".toList, name, "-p".toList, proto, "-m".toList, proto] ++ ([' '] ++
      ("--dport ".toList ++ (port ++ " -j DNAT --to-destination ".toList))), by simp⟩
  rw [hreal, ← hdest]
  exact (List.takeWhile_prefix _).isInfix.trans hsuffix.isInfix

end Forward

/-! ## Two networks -/

/-- A server on two networks. -/
def twoNetworks : Container where
  addresses := [173539332, 173604869]
  attached := by decide
  valid := by decide

/-- Its live forward. -/
def liveForward : Row :=
  ⟨forward "NETAVARK-DN-1D8721804F16F".toList "tcp".toList "443".toList "10.89.0.5:443".toList, by decide⟩

/-- The live forward of a container on two networks is deleted. -/
theorem live_forward_deleted : ¬ Cleans twoNetworks [liveForward] := by
  intro h
  have hmem := h.kept liveForward List.mem_cons_self (by decide +kernel)
  have hgone : clean twoNetworks [liveForward] = [] := by
    rw [clean_eq_filter]
    decide +kernel
  rw [hgone] at hmem
  exact absurd hmem List.not_mem_nil

end LabInABox.Server
