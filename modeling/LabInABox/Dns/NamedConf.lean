import LabInABox.Dns.Names
import LabInABox.Dns.Service
import LabInABox.Text.Order
import LabInABox.Text.Quoted

/-!
# The declarations of zones

Model of what `ensure_zone` (`libs/services.py`) reads and writes in the configuration of `named`: `_zone_declared`,
`_create_local_zone` and `_create_remote_zone`, with the files of each family (`zone_dir`, `local_named_conf`,
`remote_named_conf`, `main_named_conf`, `include_needed`, `zone_path` and `stanza`, `libs/dns_zone.py`).

* `DnsService` takes the zones that a server declares as given. Here they are what its configuration holds, and a
  declaration is a text that is appended to it.
* A file that is not there is an empty text. The os-release of a server does not change in a run.
* Names of zones are words, so that a name in quotes is not cut.

Results:
* `zoneDeclared_iff`: a zone is found where it is declared at least once.
* `declarations_createZone`: creating a zone adds one declaration, of this zone and on this server.
* `ensureZones_refine`: over any run the configuration does what `DnsService` says, with the same answers.
* `declarations_run`: no zone is declared twice, if none was before.
* `included_run`: a configuration of this project's own is included from that of the distribution.
-/

namespace LabInABox.Dns

open Text

/-! ## The files of a family -/

/-- What os-release says of a server. -/
structure OsInfo where
  id : Text
  like : Text

/-- `_DEBIAN_IDS`. -/
def debianIds : List Text :=
  ["debian".toList, "ubuntu".toList, "raspbian".toList, "linuxmint".toList, "devuan".toList, "pop".toList]

/-- `ZONE_DIR_DEBIAN`. -/
def zoneDirDebian : Text := "/etc/bind".toList

/-- `ZONE_DIR_DEFAULT`. -/
def zoneDirDefault : Text := "/var/lib/named".toList

section Family

variable (os : OsInfo)

/-- `zone_dir(os_id, os_like)`. -/
def zoneDirOf : Text :=
  if lower os.id ∈ debianIds ∨ "debian".toList <:+: lower os.like ∨ "ubuntu".toList <:+: lower os.like then
    zoneDirDebian
  else zoneDirDefault

/-- `local_named_conf(os_id, os_like)`. -/
def localNamedConf : Text :=
  if zoneDirOf os = zoneDirDebian then "/etc/bind/named.conf.local".toList else "/etc/named.conf".toList

/-- `remote_named_conf(os_id, os_like)`. -/
def remoteNamedConf : Text :=
  if zoneDirOf os = zoneDirDebian then "/etc/bind/named.conf.local".toList else "/etc/named.lab.conf".toList

/-- `main_named_conf(os_id, os_like)`. -/
def mainNamedConf : Text :=
  if zoneDirOf os = zoneDirDebian then "/etc/bind/named.conf".toList else "/etc/named.conf".toList

/-- `include_needed(os_id, os_like)`. -/
def includeNeeded : Bool := decide (remoteNamedConf os ≠ "/etc/bind/named.conf.local".toList)

/-- `zone_path(file_name, os_id, os_like)`. -/
def zonePath (fileName : Text) : Text := zoneDirOf os ++ '/' :: fileName

end Family

/-- `stanza(zone, zone_file)`. -/
def stanza (zone zoneFile : Text) : Text :=
  "zone ".toList ++ '"' :: (zone ++ '"' :: (" \x7b type master; file ".toList ++
    '"' :: (zoneFile ++ '"' :: "; allow-update \x7b none; \x7d; \x7d;".toList)))

/-- `'zone "{}"'.format(zone)`. -/
def zonePattern (zone : Text) : Text := "zone ".toList ++ '"' :: (zone ++ ['"'])

/-- `include "{f}";` -/
def includeLine (file : Text) : Text := "include ".toList ++ '"' :: (file ++ '"' :: ";".toList)

/-! ## The service -/

/-- The zone files, and the configuration of `named` on each server. -/
structure NamedService where
  zones : Zones
  confs : Server → Text → Text

namespace NamedService

variable (os : Server → OsInfo)

/-- The files that are searched for a declaration. -/
def searched : Server → List Text
  | none => [localNamedConf (os none)]
  | some _ => ["/etc/named.conf".toList, "/etc/named.lab.conf".toList, "/etc/bind/named.conf.local".toList]

/-- `_zone_declared(server, zone)`. -/
def zoneDeclared (n : NamedService) (server : Server) (zone : Text) : Bool :=
  match server with
  | none => decide (zonePattern zone <:+: n.confs none (localNamedConf (os none)))
  | some _ => (searched os server).any fun f => grepF (zonePattern zone) (n.confs server f)

/-- The configuration after a write to a file. -/
def putConf (confs : Server → Text → Text) (server : Server) (file text : Text) : Server → Text → Text :=
  fun s f => if s = server ∧ f = file then text else confs s f

/-- The declaration of a zone, and the include it may need. -/
def declare (confs : Server → Text → Text) (server : Server) (zone fileName : Text) : Server → Text → Text :=
  let path := zonePath (os server) fileName
  match server with
  | none =>
    let conf := localNamedConf (os none)
    putConf confs none conf (confs none conf ++ '\n' :: (stanza zone path ++ ['\n']))
  | some _ =>
    let conf := remoteNamedConf (os server)
    let main := mainNamedConf (os server)
    let confs' := putConf confs server conf (appendLine (confs server conf) (stanza zone path))
    if includeNeeded (os server) = true ∧ grepF conf (confs' server main) = false then
      putConf confs' server main (appendLine (confs' server main) (includeLine conf))
    else confs'

/-- `_create_local_zone` and `_create_remote_zone`. -/
def createZone (n : NamedService) (server : Server) (zone fileName : Text) (header : List Text) : NamedService where
  zones := (DnsService.createZone ⟨n.zones, fun _ _ => false⟩ server zone fileName header).zones
  confs := declare os n.confs server zone fileName

/-- `ensure_zone(server, mydomain, mynet_reverse)`: whether a zone had to be created. -/
def ensureZone (n : NamedService) (server : Server) (mydomain mynetReverse : Text) : Bool × NamedService :=
  (DnsService.wanted mydomain mynetReverse).foldl (fun st w =>
    if zoneDeclared os st.2 server w.1 then st
    else (true, createZone os st.2 server w.1 w.2.1 w.2.2.lines)) (false, n)

end NamedService

/-! ## How often a zone is declared -/

section Declarations

variable {zone zone' file t : Text}

/-- How often a text declares a zone. -/
def held (zone t : Text) : Nat := (behind "zone ".toList (pieces '"' t)).count zone

theorem quote_not_mem {w : Text} (h : IsWord w) : '"' ∉ w := fun hm => absurd (h.2 _ hm) (by decide)

theorem space_not_mem {w : Text} (h : IsWord w) : ' ' ∉ w := fun hm => absurd (h.2 _ hm) (by decide)

theorem held_pos_iff (h : IsWord zone) (t : Text) : 0 < held zone t ↔ zonePattern zone <:+: t := by
  rw [held, List.count_pos_iff, mem_behind_iff (by decide) (quote_not_mem h), zonePattern]

/-- The last piece of a text is closed by a word that is no zone's name. -/
theorem held_append (h : IsWord zone) {u m : Text} {ys : List Text} (hu : pieces '"' u = m :: ys) (hm : ' ' ∈ m)
    (t : Text) : ∃ l, held zone (t ++ u) = held zone t + (behind "zone ".toList ((l ++ m) :: ys)).count zone := by
  obtain ⟨xs, l, ht, happend⟩ := exists_pieces_append (q := '"') t
  refine ⟨l, ?_⟩
  rw [held, held, happend hu, ht]
  have hne : zone ≠ l ++ m := by
    rintro rfl
    exact space_not_mem h (List.mem_append_right _ hm)
  exact count_behind_append hne xs

/-- **A declaration that is appended** is one of its zone, and of no other. -/
theorem held_append_stanza (h : IsWord zone) (h' : IsWord zone') (hfile : '"' ∉ file) {pre : Text}
    (hpre : pre = [] ∨ pre = ['\n']) (t : Text) :
    held zone (t ++ (pre ++ (stanza zone' file ++ ['\n']))) = held zone t + if zone = zone' then 1 else 0 := by
  have hpieces : pieces '"' (pre ++ (stanza zone' file ++ ['\n'])) = (pre ++ "zone ".toList) ::
      [zone', " \x7b type master; file ".toList, file, "; allow-update \x7b none; \x7d; \x7d;\n".toList] := by
    have hfront : '"' ∉ pre ++ "zone ".toList := by
      rcases hpre with rfl | rfl
      · decide
      · decide
    have heq : pre ++ (stanza zone' file ++ ['\n']) = (pre ++ "zone ".toList) ++ '"' :: (zone' ++ '"' ::
        (" \x7b type master; file ".toList ++ '"' :: (file ++ '"' ::
          "; allow-update \x7b none; \x7d; \x7d;\n".toList))) := by
      simp [stanza]
    rw [heq, pieces_append_cons hfront, pieces_append_cons (quote_not_mem h'), pieces_append_cons (by decide),
      pieces_append_cons hfile, pieces_of_not_mem (by decide)]
  obtain ⟨l, hl⟩ := held_append h hpieces (List.mem_append_right _ (by decide)) t
  have hopen : "zone ".toList <:+ l ++ (pre ++ "zone ".toList) :=
    (List.suffix_append pre _).trans (List.suffix_append l _)
  have hzone : ¬ "zone ".toList <:+ zone' := fun hcon => space_not_mem h' (hcon.subset (by decide))
  have hmiddle : ¬ "zone ".toList <:+ " \x7b type master; file ".toList := by decide
  rw [hl, behind_cons_of_suffix hopen, behind_cons_of_not_suffix hzone, behind_cons_of_not_suffix hmiddle,
    behind_pair, List.count_singleton]
  by_cases heq : zone = zone'
  · rw [if_pos heq, if_pos (beq_iff_eq.mpr heq.symm)]
  · rw [if_neg heq, if_neg fun hcon => heq (beq_iff_eq.mp hcon).symm]

/-- An include is no declaration. -/
theorem held_append_include (h : IsWord zone) (hfile : '"' ∉ file) (t : Text) :
    held zone (appendLine t (includeLine file)) = held zone t := by
  have hpieces : pieces '"' (includeLine file ++ ['\n']) = "include ".toList :: [file, ";\n".toList] := by
    have heq : includeLine file ++ ['\n'] = "include ".toList ++ '"' :: (file ++ '"' :: ";\n".toList) := by
      unfold includeLine
      simp
    rw [heq, pieces_append_cons (by decide), pieces_append_cons hfile, pieces_of_not_mem (by decide)]
  obtain ⟨l, hl⟩ := held_append h hpieces (by decide) t
  have hopen : ¬ "zone ".toList <:+ l ++ "include ".toList := by
    intro hcon
    rcases List.suffix_or_suffix_of_suffix hcon (List.suffix_append l _) with hz | hz
    · exact absurd hz (by decide)
    · exact absurd hz (by decide)
  rw [appendLine, hl, behind_cons_of_not_suffix hopen, behind_pair]
  exact Nat.add_zero _

end Declarations

/-! ## One zone is created -/

namespace NamedService

section Create

variable {os : Server → OsInfo} {n : NamedService} {confs : Server → Text → Text} {server s : Server}
  {zone zone' fileName : Text} {header : List Text}

/-- How often the files that are searched declare a zone. -/
def declarations (os : Server → OsInfo) (n : NamedService) (server : Server) (zone : Text) : Nat :=
  ((searched os server).map fun f => held zone (n.confs server f)).sum

theorem grepF_iff {r t : Text} (hne : r ≠ []) (hr : '\n' ∉ r) : grepF r t = true ↔ r <:+: t := by
  rw [grepF, List.any_eq_true, ← exists_mem_lines_infix_iff hne hr t]
  simp only [decide_eq_true_eq]

theorem grepF_zonePattern (h : IsWord zone) (t : Text) : grepF (zonePattern zone) t = true ↔ 0 < held zone t := by
  have hword : '\n' ∉ zone := fun hm => absurd (h.2 _ hm) (by decide)
  have hline : '\n' ∉ zonePattern zone := by
    simp [zonePattern, hword]
  have hne : zonePattern zone ≠ [] := List.append_ne_nil_of_left_ne_nil (by decide) _
  rw [grepF_iff hne hline, held_pos_iff h]

/-- **A zone is found** where it is declared. -/
theorem zoneDeclared_iff (h : IsWord zone) :
    zoneDeclared os n server zone = true ↔ 0 < declarations os n server zone := by
  cases server with
  | none =>
    rw [zoneDeclared, decide_eq_true_iff, ← held_pos_iff h]
    rfl
  | some m =>
    rw [zoneDeclared, List.any_eq_true, declarations, List.sum_pos_iff_exists_pos_nat]
    constructor
    · rintro ⟨f, hf, hgrep⟩
      exact ⟨_, List.mem_map_of_mem hf, (grepF_zonePattern h _).mp hgrep⟩
    · rintro ⟨x, hx, hpos⟩
      obtain ⟨f, hf, rfl⟩ := List.mem_map.mp hx
      exact ⟨f, hf, (grepF_zonePattern h _).mpr hpos⟩

theorem zoneDirOf_cases (os : OsInfo) : zoneDirOf os = zoneDirDebian ∨ zoneDirOf os = zoneDirDefault := by
  unfold zoneDirOf
  split
  · exact Or.inl rfl
  · exact Or.inr rfl

theorem quote_not_mem_zonePath (os : OsInfo) (h : '"' ∉ fileName) : '"' ∉ zonePath os fileName := by
  intro hm
  rcases List.mem_append.mp hm with hm | hm
  · rcases zoneDirOf_cases os with hdir | hdir
    · exact absurd (hdir ▸ hm) (by decide)
    · exact absurd (hdir ▸ hm) (by decide)
  · exact h (List.mem_of_ne_of_mem (by decide) hm)

theorem quote_not_mem_remoteNamedConf (os : OsInfo) : '"' ∉ remoteNamedConf os := by
  unfold remoteNamedConf
  split
  · decide
  · decide

/-- What a declaration adds to each file of a master. -/
theorem held_declare_remote (h : IsWord zone) (h' : IsWord zone') (hfile : '"' ∉ fileName) (m f : Text) :
    held zone (declare os confs (some m) zone' fileName (some m) f) =
      held zone (confs (some m) f) + if f = remoteNamedConf (os (some m)) ∧ zone = zone' then 1 else 0 := by
  have hput : ∀ f, held zone (putConf confs (some m) (remoteNamedConf (os (some m)))
      (appendLine (confs (some m) (remoteNamedConf (os (some m))))
        (stanza zone' (zonePath (os (some m)) fileName))) (some m) f) =
      held zone (confs (some m) f) + if f = remoteNamedConf (os (some m)) ∧ zone = zone' then 1 else 0 := by
    intro f
    unfold putConf
    split
    · rename_i hf
      obtain rfl := hf.2
      have hadd := held_append_stanza h h' (quote_not_mem_zonePath (os (some m)) hfile) (Or.inl rfl)
        (confs (some m) (remoteNamedConf (os (some m))))
      rw [List.nil_append] at hadd
      rw [appendLine, hadd]
      simp
    · rename_i hf
      rw [if_neg fun hcon => hf ⟨rfl, hcon.1⟩]
      rfl
  unfold declare
  dsimp only
  split
  · rw [← hput f]
    generalize putConf confs (some m) (remoteNamedConf (os (some m))) _ = confs'
    unfold putConf
    split
    · rename_i hf
      rw [held_append_include h (quote_not_mem_remoteNamedConf _), hf.2]
    · rfl
  · exact hput f

/-- Of the files that are searched on a master, one is written. -/
theorem remoteNamedConf_cases (os : OsInfo) :
    remoteNamedConf os = "/etc/named.lab.conf".toList ∨ remoteNamedConf os = "/etc/bind/named.conf.local".toList := by
  unfold remoteNamedConf
  split
  · exact Or.inr rfl
  · exact Or.inl rfl

theorem declare_of_ne (hne : s ≠ server) (f : Text) : declare os confs server zone fileName s f = confs s f := by
  have hput : ∀ (confs : Server → Text → Text) g t, putConf confs server g t s f = confs s f :=
    fun confs g t => if_neg fun hcon => hne hcon.1
  cases server with
  | none => exact hput ..
  | some m =>
    unfold declare
    dsimp only
    split
    · rw [hput, hput]
    · rw [hput]

/-- **Creating a zone** adds one declaration, of this zone and on this server. -/
theorem declarations_createZone (h : IsWord zone) (h' : IsWord zone') (hfile : '"' ∉ fileName) :
    declarations os (createZone os n server zone' fileName header) s zone =
      declarations os n s zone + if s = server ∧ zone = zone' then 1 else 0 := by
  by_cases hs : s = server
  · subst hs
    cases s with
    | none =>
      have hadd := held_append_stanza h h' (quote_not_mem_zonePath (os none) hfile) (Or.inr rfl)
        (n.confs none (localNamedConf (os none)))
      simp only [declarations, searched, List.map_cons, List.map_nil, List.sum_cons, List.sum_nil, Nat.add_zero,
        createZone, declare, putConf]
      simpa using hadd
    | some m =>
      simp only [declarations, searched, List.map_cons, List.map_nil, List.sum_cons, List.sum_nil, Nat.add_zero,
        createZone, held_declare_remote h h' hfile, true_and]
      have h₁ : ("/etc/named.conf".toList = "/etc/named.lab.conf".toList) = False := by decide
      have h₂ : ("/etc/named.conf".toList = "/etc/bind/named.conf.local".toList) = False := by decide
      have h₃ : ("/etc/named.lab.conf".toList = "/etc/bind/named.conf.local".toList) = False := by decide
      have h₄ : ("/etc/bind/named.conf.local".toList = "/etc/named.lab.conf".toList) = False := by decide
      rcases remoteNamedConf_cases (os (some m)) with hr | hr
      · simp only [hr, h₁, h₄, false_and, true_and, if_false]
        omega
      · simp only [hr, h₂, h₃, false_and, true_and, if_false]
        omega
  · rw [if_neg fun hcon => hs hcon.1]
    simp only [declarations, createZone, declare_of_ne hs, Nat.add_zero]

/-! ### What the zones stand for -/

/-- A configuration does what the service says, on the zones whose names are words. -/
structure Refines (os : Server → OsInfo) (n : NamedService) (d : DnsService) : Prop where
  zones : n.zones = d.zones
  declared : ∀ s zone, IsWord zone → d.declared s zone = zoneDeclared os n s zone

theorem Refines.createZone {d : DnsService} (h : Refines os n d) (hzone : IsWord zone) (hfile : '"' ∉ fileName) :
    Refines os (createZone os n server zone fileName header) (d.createZone server zone fileName header) where
  zones := by
    change (DnsService.createZone ⟨n.zones, _⟩ server zone fileName header).zones = _
    rw [h.zones]
    rfl
  declared s w hw := by
    rw [Bool.eq_iff_iff, zoneDeclared_iff hw, declarations_createZone hw hzone hfile]
    change (d.declared s w || (s == server && w == zone)) = true ↔ _
    rw [Bool.or_eq_true, h.declared s w hw, zoneDeclared_iff hw, Bool.and_eq_true, beq_iff_eq, beq_iff_eq]
    split
    · rename_i heq
      exact ⟨fun _ => Nat.succ_pos _, fun _ => Or.inr heq⟩
    · rename_i hne
      exact ⟨fun hor => hor.resolve_right hne, Or.inl⟩

end Create

/-! ## Runs -/

section Runs

variable {os : Server → OsInfo} {n : NamedService} {d : DnsService} {server s : Server}
  {zone mydomain mynetReverse : Text} {ws : List (Text × Text × Header)}

/-- The zones are words, and their files have no quote. -/
def Plain (ws : List (Text × Text × Header)) : Prop := ∀ w ∈ ws, IsWord w.1 ∧ '"' ∉ w.2.1

theorem plain_wanted (hd : IsWord mydomain) (hr : mynetReverse = [] ∨ IsWord mynetReverse) :
    Plain (DnsService.wanted mydomain mynetReverse) := by
  have hquote : ∀ {a b : Text}, '"' ∉ a → '"' ∉ b → '"' ∉ a ++ b := fun ha hb hm =>
    (List.mem_append.mp hm).elim ha hb
  intro w hw
  rcases List.mem_cons.mp hw with rfl | hw
  · exact ⟨hd, hquote (quote_not_mem hd) (by decide)⟩
  · split at hw
    · cases hw
    · rename_i hne
      obtain rfl := List.mem_singleton.mp hw
      have hword : IsWord mynetReverse := hr.resolve_left hne
      refine ⟨⟨List.append_ne_nil_of_left_ne_nil hword.1 _, fun c hc => ?_⟩, hquote (quote_not_mem hword) (by decide)⟩
      rcases List.mem_append.mp hc with hc | hc
      · exact hword.2 c hc
      · have htail : ∀ c ∈ ".in-addr.arpa".toList, hostChar c = true := by decide
        exact htail c hc

/-- One zone after another, on a server. -/
def ensureWanted (os : Server → OsInfo) (server : Server) (st : Bool × NamedService)
    (ws : List (Text × Text × Header)) : Bool × NamedService :=
  ws.foldl (fun st w =>
    if zoneDeclared os st.2 server w.1 then st
    else (true, createZone os st.2 server w.1 w.2.1 w.2.2.lines)) st

theorem ensureWanted_refines {st : Bool × NamedService} {st' : Bool × DnsService} (hws : Plain ws)
    (hb : st.1 = st'.1) (h : Refines os st.2 st'.2) :
    (ensureWanted os server st ws).1 = (ws.foldl (fun st w =>
      if st.2.declared server w.1 then st else (true, st.2.createZone server w.1 w.2.1 w.2.2.lines)) st').1 ∧
    Refines os (ensureWanted os server st ws).2 (ws.foldl (fun st w =>
      if st.2.declared server w.1 then st else (true, st.2.createZone server w.1 w.2.1 w.2.2.lines)) st').2 := by
  induction ws generalizing st st' with
  | nil => exact ⟨hb, h⟩
  | cons w ws ih =>
    obtain ⟨hword, hfile⟩ := hws w List.mem_cons_self
    have hrest : Plain ws := fun v hv => hws v (List.mem_cons_of_mem _ hv)
    rw [ensureWanted, List.foldl_cons, List.foldl_cons, h.declared server w.1 hword]
    cases zoneDeclared os st.2 server w.1 with
    | true => exact ih hrest hb h
    | false => exact ih hrest rfl (h.createZone hword hfile)

theorem declarations_ensureWanted {st : Bool × NamedService} (hws : Plain ws) (hzone : IsWord zone) :
    declarations os (ensureWanted os server st ws).2 s zone =
      if declarations os st.2 s zone = 0 ∧ s = server ∧ zone ∈ ws.map Prod.fst then 1
      else declarations os st.2 s zone := by
  induction ws generalizing st with
  | nil => simp [ensureWanted]
  | cons w ws ih =>
    obtain ⟨hword, hfile⟩ := hws w List.mem_cons_self
    have hrest : Plain ws := fun v hv => hws v (List.mem_cons_of_mem _ hv)
    rw [ensureWanted, List.foldl_cons]
    change declarations os (ensureWanted os server _ ws).2 s zone = _
    rw [ih hrest]
    simp only [List.map_cons, List.mem_cons]
    cases hdecl : zoneDeclared os st.2 server w.1 with
    | true =>
      have hpos := (zoneDeclared_iff hword).mp hdecl
      have hne : declarations os st.2 s zone = 0 → s = server → zone ≠ w.1 := by
        rintro hzero rfl rfl
        omega
      simp only [if_true]
      refine if_congr ?_ rfl rfl
      constructor
      · rintro ⟨hzero, hs, hmem⟩
        exact ⟨hzero, hs, Or.inr hmem⟩
      · rintro ⟨hzero, hs, hmem⟩
        exact ⟨hzero, hs, hmem.resolve_left (hne hzero hs)⟩
    | false =>
      have hzero : declarations os st.2 server w.1 = 0 := by
        by_contra hcon
        rw [(zoneDeclared_iff hword).mpr (Nat.pos_of_ne_zero hcon)] at hdecl
        cases hdecl
      simp only [Bool.false_eq_true, if_false, declarations_createZone hzone hword hfile]
      by_cases heq : s = server ∧ zone = w.1
      · obtain ⟨rfl, rfl⟩ := heq
        simp [hzero]
      · rw [if_neg heq, Nat.add_zero]
        refine if_congr ?_ rfl rfl
        constructor
        · rintro ⟨h0, hs, hmem⟩
          exact ⟨h0, hs, Or.inr hmem⟩
        · rintro ⟨h0, hs, hmem⟩
          exact ⟨h0, hs, hmem.resolve_left fun hz => heq ⟨hs, hz⟩⟩

/-- A call of `ensure_zone`. -/
structure ZoneCall where
  server : Server
  mydomain : Text
  mynetReverse : Text

/-- The domain and the network of a call are words, if it has a network. -/
def ZoneCall.IsPlain (c : ZoneCall) : Prop := IsWord c.mydomain ∧ (c.mynetReverse = [] ∨ IsWord c.mynetReverse)

instance (c : ZoneCall) : Decidable c.IsPlain := inferInstanceAs (Decidable ((_ ∧ _) ∧ (_ ∨ (_ ∧ _))))

/-- The zones a call wants. -/
def ZoneCall.zones (c : ZoneCall) : List Text := (DnsService.wanted c.mydomain c.mynetReverse).map Prod.fst

/-- Calls one after another, and what each returns. -/
def ensureZones (os : Server → OsInfo) : List ZoneCall → NamedService → List Bool × NamedService
  | [], n => ([], n)
  | c :: cs, n =>
    let r := ensureZone os n c.server c.mydomain c.mynetReverse
    let rest := ensureZones os cs r.2
    (r.1 :: rest.1, rest.2)

/-- The same calls, where the declared zones are given. -/
def declaredZones : List ZoneCall → DnsService → List Bool × DnsService
  | [], d => ([], d)
  | c :: cs, d =>
    let r := d.ensureZone c.server c.mydomain c.mynetReverse
    let rest := declaredZones cs r.2
    (r.1 :: rest.1, rest.2)

variable {calls : List ZoneCall}

/-- **Over any run** the configuration does what the service says, and the calls return the same. -/
theorem ensureZones_refine (hcalls : ∀ c ∈ calls, c.IsPlain) (h : Refines os n d) :
    (ensureZones os calls n).1 = (declaredZones calls d).1 ∧
      Refines os (ensureZones os calls n).2 (declaredZones calls d).2 := by
  induction calls generalizing n d with
  | nil => exact ⟨rfl, h⟩
  | cons c cs ih =>
    obtain ⟨hd, hr⟩ := hcalls c List.mem_cons_self
    obtain ⟨hb, hstep⟩ := @ensureWanted_refines os c.server _ (false, n) (false, d) (plain_wanted hd hr) rfl h
    obtain ⟨hbs, hrest⟩ := ih (fun c hc => hcalls c (List.mem_cons_of_mem _ hc)) hstep
    exact ⟨List.cons_eq_cons.mpr ⟨hb, hbs⟩, hrest⟩

/-- A server of the family that needs the include. -/
def sampleOs : Server → OsInfo := fun _ => ⟨"opensuse-leap".toList, "suse".toList⟩

/-- This host and a master are given a zone, the master a second time with its reverse zone. -/
def sampleZoneCalls : List ZoneCall :=
  [⟨none, "lab.net".toList, []⟩, ⟨some "dns1".toList, "lab.net".toList, []⟩,
    ⟨some "dns1".toList, "lab.net".toList, "88.168.192".toList⟩]

/-- No file is there. -/
def emptyService : NamedService := ⟨fun _ => none, fun _ _ => []⟩

theorem declarations_emptyService (os : Server → OsInfo) (s : Server) (zone : Text) :
    declarations os emptyService s zone = 0 := by
  cases s with
  | none => rfl
  | some m => rfl

theorem refines_emptyService (os : Server → OsInfo) : Refines os emptyService ⟨fun _ => none, fun _ _ => false⟩ where
  zones := rfl
  declared s zone hzone := by
    rw [eq_comm, Bool.eq_false_iff]
    intro hcon
    have hpos := (zoneDeclared_iff hzone).mp hcon
    rw [declarations_emptyService] at hpos
    exact Nat.lt_irrefl 0 hpos

theorem ensureZones_refine_sample :
    (ensureZones sampleOs sampleZoneCalls emptyService).1 =
      (declaredZones sampleZoneCalls ⟨fun _ => none, fun _ _ => false⟩).1 ∧
    Refines sampleOs (ensureZones sampleOs sampleZoneCalls emptyService).2
      (declaredZones sampleZoneCalls ⟨fun _ => none, fun _ _ => false⟩).2 :=
  ensureZones_refine (by decide) (refines_emptyService sampleOs)

/-- **No zone is declared twice**, if none was before: a zone that was not declared is declared once where a call
wants it, and the others stay as they were. -/
theorem declarations_run (hcalls : ∀ c ∈ calls, c.IsPlain) (n : NamedService) (s : Server) (hzone : IsWord zone) :
    declarations os (ensureZones os calls n).2 s zone =
      if declarations os n s zone = 0 ∧ ∃ c ∈ calls, c.server = s ∧ zone ∈ c.zones then 1
      else declarations os n s zone := by
  induction calls generalizing n with
  | nil => simp [ensureZones]
  | cons c cs ih =>
    obtain ⟨hd, hr⟩ := hcalls c List.mem_cons_self
    have hstep := @declarations_ensureWanted os c.server s zone (DnsService.wanted c.mydomain c.mynetReverse)
      (false, n) (plain_wanted hd hr) hzone
    rw [ensureZones]
    dsimp only
    rw [ih (fun c hc => hcalls c (List.mem_cons_of_mem _ hc))]
    change declarations os (ensureZone os n c.server c.mydomain c.mynetReverse).2 s zone =
      if declarations os n s zone = 0 ∧ s = c.server ∧ zone ∈ c.zones then 1 else declarations os n s zone at hstep
    generalize declarations os (ensureZone os n c.server c.mydomain c.mynetReverse).2 s zone = k at hstep ⊢
    by_cases hc : declarations os n s zone = 0 ∧ s = c.server ∧ zone ∈ c.zones
    · have hwant : ∃ e ∈ c :: cs, e.server = s ∧ zone ∈ e.zones :=
        ⟨c, List.mem_cons_self, hc.2.1.symm, hc.2.2⟩
      rw [if_pos hc] at hstep
      subst hstep
      rw [if_neg fun hcon => absurd hcon.1 (by decide), if_pos ⟨hc.1, hwant⟩]
    · rw [if_neg hc] at hstep
      subst hstep
      refine if_congr (and_congr_right fun hzero => ?_) rfl rfl
      rw [List.exists_mem_cons_iff]
      exact (or_iff_right fun hcon => hc ⟨hzero, hcon.1.symm, hcon.2⟩).symm

theorem declarations_run_sample :
    declarations sampleOs (ensureZones sampleOs sampleZoneCalls emptyService).2 (some "dns1".toList)
      "lab.net".toList = if declarations sampleOs emptyService (some "dns1".toList) "lab.net".toList = 0 ∧
        ∃ c ∈ sampleZoneCalls, c.server = some "dns1".toList ∧ "lab.net".toList ∈ c.zones then 1
      else declarations sampleOs emptyService (some "dns1".toList) "lab.net".toList :=
  declarations_run (by decide) emptyService _ ⟨by decide, by decide⟩

/-! ### The include -/

/-- A configuration of this project's own that holds something is included. -/
def Included (os : Server → OsInfo) (n : NamedService) (m : Text) : Prop :=
  includeNeeded (os (some m)) = true → n.confs (some m) (remoteNamedConf (os (some m))) ≠ [] →
    grepF (remoteNamedConf (os (some m))) (n.confs (some m) (mainNamedConf (os (some m)))) = true

theorem infix_includeLine (file t : Text) : file <:+: appendLine t (includeLine file) := by
  refine ⟨t ++ "include ".toList ++ ['"'], '"' :: ";".toList ++ ['\n'], ?_⟩
  unfold appendLine includeLine
  simp

theorem remoteNamedConf_line (os : OsInfo) : remoteNamedConf os ≠ [] ∧ '\n' ∉ remoteNamedConf os := by
  rcases remoteNamedConf_cases os with h | h
  · rw [h]
    decide
  · rw [h]
    decide

theorem included_createZone {m fileName : Text} {header : List Text} (h : Included os n m) :
    Included os (createZone os n server zone fileName header) m := by
  intro hneeded hne
  obtain ⟨hconf, hline⟩ := remoteNamedConf_line (os (some m))
  by_cases hs : some m = server
  · subst hs
    change grepF _ (declare os n.confs (some m) zone fileName (some m) _) = true
    unfold declare
    dsimp only
    split
    · rw [putConf, if_pos ⟨rfl, rfl⟩, grepF_iff hconf hline]
      exact infix_includeLine _ _
    · rename_i hno
      by_contra hcon
      exact hno ⟨hneeded, Bool.eq_false_iff.mpr hcon⟩
  · change declare os n.confs server zone fileName (some m) _ ≠ [] at hne
    change grepF _ (declare os n.confs server zone fileName (some m) _) = true
    rw [declare_of_ne hs] at hne ⊢
    exact h hneeded hne

/-- What is declared in a configuration of this project's own is declared to `named`. -/
theorem included_run {m : Text} (h : Included os n m) : Included os (ensureZones os calls n).2 m := by
  have hwanted : ∀ {ws : List (Text × Text × Header)} {server : Server} {st : Bool × NamedService},
      Included os st.2 m → Included os (ensureWanted os server st ws).2 m := by
    intro ws server
    induction ws with
    | nil => exact fun h => h
    | cons w ws ih =>
      intro st h
      rw [ensureWanted, List.foldl_cons]
      split
      · exact ih h
      · exact @ih (true, _) (included_createZone h)
  induction calls generalizing n with
  | nil => exact h
  | cons c cs ih => exact ih (@hwanted _ c.server (false, n) h)

end Runs

end NamedService

end LabInABox.Dns
