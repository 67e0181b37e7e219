import LabInABox.Dns.AddNode
import LabInABox.Dns.DelNode

/-!
# Pointing a service at its nodes

What `add_service_dns` leaves in the forward zone of this host and of the masters that answer: for
each target in turn its record is deleted and appended.

* This host deletes the lines equal to the record. A master deletes those that hold a text like it:
  the name may end a longer one, and the address may begin a longer one.
* A target that is written may so be deleted by a later one. What a later deletion does to a record
  of the same service is read off the addresses (`Begins`).

Results:
* `mem_rows_serviceLocal`: on this host a write adds the row of its record and nothing else.
* `mem_lines_serve`: the lines the writes leave on a master.
* `served_iff`: on a master every target is there at the end and no other name lost a row iff the
  file is `ServeReady`.
* `addServiceDns_serves_iff`: the same for the whole operation, and a second run changes nothing.
-/

namespace LabInABox.Dns

open Text

namespace DnsService

/-! ## What the writes are for -/

/-- What `add_service_dns` is for, on the servers `ss`: `z''` are the files after a second run. -/
structure Served (z z' z'' : Zones) (ss : List Server) (dnsEntry : Text) (ips : List Text)
    (mydomain : Text) : Prop where
  held : ∀ s ∈ ss, ∀ ip ∈ ips,
    addressRow dnsEntry ["IN".toList] ip ∈ rows (z'.text (s, forwardFile mydomain))
  others : ∀ s ∈ ss, ∀ ρ ∈ rows (z.text (s, forwardFile mydomain)), ρ.head? ≠ some dnsEntry →
    ρ ∈ rows (z'.text (s, forwardFile mydomain))
  again : ∀ s ∈ ss, ∀ r, r ∈ zoneRecords z'' s (forwardFile mydomain) ↔
    r ∈ zoneRecords z' s (forwardFile mydomain)

/-- An address whose text begins another, a dot of it standing for any character. -/
def Begins (ip' ip : Text) : Prop := ∃ w, w <+: ip ∧ Like ip' w

instance decidableBegins (ip' ip : Text) : Decidable (Begins ip' ip) :=
  decidable_of_iff (∃ w ∈ ip.inits, Like ip' w) (by simp only [List.mem_inits, Begins])

/-- A line that the deletion of one of the targets selects. -/
def Hit (dnsEntry : Text) (ips : List Text) (l : Text) : Prop :=
  ∃ ip ∈ ips, Holds (serviceRecord dnsEntry ip) l

instance decidableHit (dnsEntry : Text) (ips : List Text) (l : Text) :
    Decidable (Hit dnsEntry ips l) := inferInstanceAs (Decidable (∃ _ ∈ _, _))

/-- **The forward file of a master takes the records of a service**: no target is begun by a later
one, unless a line no deletion selects says it as well, and what a selected line says of another
name stands on a line that is not selected too. -/
structure ServeReady (dnsEntry : Text) (ips : List Text) (t : Text) : Prop where
  targets : ∀ ip ∈ ips,
    (∃ pre post, ips = pre ++ ip :: post ∧ ∀ ip' ∈ post, ¬ Begins ip' ip) ∨
      ∃ l ∈ lines t, ¬ Hit dnsEntry ips l ∧ addressRow dnsEntry ["IN".toList] ip ∈ rows l
  others : ∀ l ∈ lines t, Hit dnsEntry ips l → ∀ ρ ∈ rows l, ρ.head? ≠ some dnsEntry →
    ∃ l' ∈ lines t, ¬ Hit dnsEntry ips l' ∧ ρ ∈ rows l'

/-! ## One record among those of its service -/

variable {dnsEntry ip ip' mydomain t : Text} {ips : List Text} {ρ : List Text}

theorem Holds.refl (r : Text) : Holds r r := ⟨r, List.infix_refl r, Like.refl r⟩

/-- Two texts around a character are the same when it is in none of the parts of one. -/
theorem append_cons_inj {a b u v : Text} {c : Char} (hu : c ∉ u) (hv : c ∉ v)
    (h : a ++ c :: b = u ++ c :: v) : a = u ∧ b = v := by
  rcases List.append_eq_append_iff.mp h with ⟨x, rfl, hx⟩ | ⟨x, rfl, hx⟩
  · cases x with
    | nil => exact ⟨(List.append_nil a).symm, (List.cons.inj hx).2⟩
    | cons d ds =>
      obtain ⟨rfl, -⟩ := List.cons.inj hx
      exact absurd (List.mem_append_right _ List.mem_cons_self) hu
  · cases x with
    | nil => exact ⟨List.append_nil u, (List.cons.inj hx).2.symm⟩
    | cons d ds =>
      obtain ⟨-, rfl⟩ := List.cons.inj hx
      exact absurd (List.mem_append_right _ List.mem_cons_self) hv

theorem tab_not_mem {w : Text} (h : IsWord w) : '\t' ∉ w := fun hm =>
  absurd (isSpace_of_hostChar (h.2 _ hm)) (by decide)

/-- **A deletion takes the record of another address of the service** when that begins it. -/
theorem holds_serviceRecord_iff (he : IsWord dnsEntry) (hi : IsWord ip) :
    Holds (serviceRecord dnsEntry ip') (serviceRecord dnsEntry ip) ↔ Begins ip' ip := by
  have hmid : ∀ x : Text, '\t' :: ("IN A ".toList ++ ' ' :: x) = "\tIN A  ".toList ++ x := fun _ => rfl
  constructor
  · rintro ⟨v, ⟨a, b, hl⟩, hlike⟩
    obtain ⟨v₁, v₂, rfl, h₁, h₂⟩ := like_append_iff.mp hlike
    rw [hmid] at h₂
    obtain ⟨w, v₃, rfl, hw, h₃⟩ := like_append_iff.mp h₂
    obtain rfl := (like_iff_eq (by decide)).mp hw
    -- the tab is where it is in the record, so nothing stands before the name
    have htab : '\t' ∉ "IN A  ".toList ++ ip := fun hm =>
      (List.mem_append.mp hm).elim (by decide) (tab_not_mem hi)
    have hcut : (a ++ v₁) ++ '\t' :: ("IN A  ".toList ++ (v₃ ++ b)) =
        dnsEntry ++ '\t' :: ("IN A  ".toList ++ ip) := by
      rw [serviceRecord, hmid] at hl
      have hl' : a ++ (v₁ ++ ("\tIN A  ".toList ++ v₃)) ++ b = dnsEntry ++ ("\tIN A  ".toList ++ ip) :=
        hl
      simpa using hl'
    obtain ⟨-, hrest⟩ := append_cons_inj (tab_not_mem he) htab hcut
    exact ⟨v₃, ⟨b, List.append_cancel_left hrest⟩, h₃⟩
  · rintro ⟨w, ⟨b, rfl⟩, hlike⟩
    refine ⟨serviceRecord dnsEntry w, ⟨[], b, by simp [serviceRecord]⟩, ?_⟩
    rw [serviceRecord, serviceRecord, hmid, hmid]
    exact like_append_iff.mpr ⟨_, _, rfl, Like.refl _, like_append_iff.mpr ⟨_, _, rfl, Like.refl _, hlike⟩⟩

theorem rowOf_serviceRecord_eq (he : IsWord dnsEntry) (hi : IsWord ip) :
    rowOf (serviceRecord dnsEntry ip) = addressRow dnsEntry ["IN".toList] ip :=
  rowOf_serviceRecord he hi

/-! ## A master -/

/-- The write of one target on a master. -/
def serveOne (dnsEntry t ip : Text) : Text :=
  appendLine (sedDrop (serviceRecord dnsEntry ip) t) (serviceRecord dnsEntry ip)

/-- The writes of the targets on a master. -/
def serve (dnsEntry : Text) (ips : List Text) (t : Text) : Text := ips.foldl (serveOne dnsEntry) t

theorem lines_append_unlines {rs : List Text} (h : Ended t) (hrs : ∀ r ∈ rs, '\n' ∉ r) :
    lines (t ++ unlines rs) = lines t ++ rs ∧ Ended (t ++ unlines rs) := by
  have hls : ∀ l ∈ lines t, '\n' ∉ l := by
    have hnil : (cutLines t).2 = [] := h
    rw [lines_eq_cutLines, hnil, if_pos rfl, List.append_nil]
    exact (cutLines_spec t).2.1
  have hall : ∀ l ∈ lines t ++ rs, '\n' ∉ l := fun l hl =>
    (List.mem_append.mp hl).elim (hls l) (hrs l)
  have ht : t ++ unlines rs = unlines (lines t ++ rs) := by
    rw [unlines_append, unlines_lines_of_ended h]
  rw [ht, lines_unlines hall]
  exact ⟨rfl, ended_unlines hall⟩

section Serve

variable (he : IsWord dnsEntry)

include he

theorem lines_serveOne (hi : IsWord ip) (h : Ended t) :
    lines (serveOne dnsEntry t ip) =
        (lines t).filter (fun l => ¬ Holds (serviceRecord dnsEntry ip) l) ++
          [serviceRecord dnsEntry ip] ∧
      Ended (serveOne dnsEntry t ip) := by
  have htext := isRecordText_serviceRecord he hi
  have hdrop : Ended (sedDrop (serviceRecord dnsEntry ip) t) := ended_sedFilter h
  have hrs : ∀ r ∈ [serviceRecord dnsEntry ip], '\n' ∉ r := by simpa using htext.newline_not_mem
  obtain ⟨hl, hended⟩ := lines_append_unlines hdrop hrs
  rw [serveOne, appendLine_eq]
  refine ⟨?_, hended⟩
  rw [hl, sedDrop, lines_sedFilter]
  congr 1
  refine List.filter_congr fun l _ => ?_
  rw [decide_not]
  congr 1
  rw [Bool.eq_iff_iff, selects_record_iff htext, decide_eq_true_eq]

/-- **The lines the writes leave on a master**: those of the file that no deletion selects, and of
the records written those that no later deletion does. -/
theorem mem_lines_serve (hips : ∀ ip ∈ ips, IsWord ip) (h : Ended t) {l : Text} :
    (l ∈ lines (serve dnsEntry ips t) ↔ (l ∈ lines t ∧ ¬ Hit dnsEntry ips l) ∨
      ∃ pre ip post, ips = pre ++ ip :: post ∧ l = serviceRecord dnsEntry ip ∧
        ¬ Hit dnsEntry post l) ∧ Ended (serve dnsEntry ips t) := by
  induction ips generalizing t with
  | nil => simp [serve, Hit, h]
  | cons ip ips ih =>
    obtain ⟨hi, htl⟩ := List.forall_mem_cons.mp hips
    obtain ⟨hlines, hended⟩ := lines_serveOne he hi h
    obtain ⟨hmem, hended'⟩ := ih htl hended
    refine ⟨?_, hended'⟩
    have hhit : Hit dnsEntry (ip :: ips) l ↔
        Holds (serviceRecord dnsEntry ip) l ∨ Hit dnsEntry ips l := by
      rw [Hit, List.exists_mem_cons_iff, ← Hit]
    change l ∈ lines (serve dnsEntry ips (serveOne dnsEntry t ip)) ↔ _
    rw [hmem, hlines, hhit, List.mem_append, List.mem_filter, List.mem_singleton,
      decide_eq_true_eq]
    constructor
    · rintro (⟨⟨hl, hnot⟩ | rfl, hnhit⟩ | ⟨pre, x, post, rfl, rfl, hpost⟩)
      · exact Or.inl ⟨hl, fun h => h.elim hnot hnhit⟩
      · exact Or.inr ⟨[], ip, ips, rfl, rfl, hnhit⟩
      · exact Or.inr ⟨ip :: pre, x, post, rfl, rfl, hpost⟩
    · rintro (⟨hl, hnot⟩ | ⟨pre, x, post, heq, rfl, hpost⟩)
      · exact Or.inl ⟨Or.inl ⟨hl, fun h => hnot (Or.inl h)⟩, fun h => hnot (Or.inr h)⟩
      · cases pre with
        | nil =>
          obtain ⟨rfl, rfl⟩ := List.cons.inj heq
          exact Or.inl ⟨Or.inr rfl, hpost⟩
        | cons y pre =>
          obtain ⟨rfl, rfl⟩ := List.cons.inj heq
          exact Or.inr ⟨pre, x, post, rfl, rfl, hpost⟩

theorem mem_rows_serviceRecord (hi : IsWord ip) :
    ρ ∈ rows (serviceRecord dnsEntry ip) ↔ ρ = addressRow dnsEntry ["IN".toList] ip := by
  have hne : serviceRecord dnsEntry ip ≠ [] := by simp [serviceRecord]
  rw [mem_rows, splitlines_of_oneLine hne (isRecordText_serviceRecord he hi).oneLine]
  simp only [List.mem_singleton, exists_eq_left, rowOf_serviceRecord_eq he hi]
  exact ⟨fun h => h.2.symm, fun h => ⟨h ▸ List.cons_ne_nil _ _, h.symm⟩⟩

/-- What the file of a master says after the writes. -/
theorem mem_rows_serve (hips : ∀ ip ∈ ips, IsWord ip) (h : Ended t) :
    ρ ∈ rows (serve dnsEntry ips t) ↔
      (∃ l ∈ lines t, ¬ Hit dnsEntry ips l ∧ ρ ∈ rows l) ∨
      ∃ pre ip post, ips = pre ++ ip :: post ∧ (∀ ip' ∈ post, ¬ Begins ip' ip) ∧
        ρ = addressRow dnsEntry ["IN".toList] ip := by
  have hlater : ∀ {ip : Text} {post : List Text}, IsWord ip →
      (¬ Hit dnsEntry post (serviceRecord dnsEntry ip) ↔ ∀ ip' ∈ post, ¬ Begins ip' ip) := by
    intro ip post hi
    simp only [Hit, holds_serviceRecord_iff he hi, not_exists, not_and]
  rw [mem_rows_iff_lines]
  simp only [mem_lines_serve he hips h]
  constructor
  · rintro ⟨l, ⟨hl, hnot⟩ | ⟨pre, ip, post, rfl, rfl, hpost⟩, hρ⟩
    · exact Or.inl ⟨l, hl, hnot, hρ⟩
    · have hi : IsWord ip := hips ip (List.mem_append_right _ List.mem_cons_self)
      exact Or.inr ⟨pre, ip, post, rfl, (hlater hi).mp hpost, (mem_rows_serviceRecord he hi).mp hρ⟩
  · rintro (⟨l, hl, hnot, hρ⟩ | ⟨pre, ip, post, rfl, hpost, rfl⟩)
    · exact ⟨l, Or.inl ⟨hl, hnot⟩, hρ⟩
    · have hi : IsWord ip := hips ip (List.mem_append_right _ List.mem_cons_self)
      exact ⟨_, Or.inr ⟨pre, ip, post, rfl, rfl, (hlater hi).mpr hpost⟩,
        (mem_rows_serviceRecord he hi).mpr rfl⟩

/-- **On a master** every target is there and no other name lost a row iff the file is ready. -/
theorem served_iff (hips : ∀ ip ∈ ips, IsWord ip) (h : Ended t) :
    ((∀ ip ∈ ips, addressRow dnsEntry ["IN".toList] ip ∈ rows (serve dnsEntry ips t)) ∧
      ∀ ρ ∈ rows t, ρ.head? ≠ some dnsEntry → ρ ∈ rows (serve dnsEntry ips t)) ↔
    ServeReady dnsEntry ips t := by
  constructor
  · rintro ⟨hheld, hothers⟩
    refine ⟨fun ip hip => ?_, fun l hl _ ρ hρ hne => ?_⟩
    · rcases (mem_rows_serve he hips h).mp (hheld ip hip) with hold | ⟨pre, x, post, hs, hpost, hrow⟩
      · exact Or.inr hold
      · obtain rfl : ip = x := by simpa [addressRow] using hrow
        exact Or.inl ⟨pre, post, hs, hpost⟩
    · rcases (mem_rows_serve he hips h).mp (hothers ρ (mem_rows_iff_lines.mpr ⟨l, hl, hρ⟩) hne) with
        hold | ⟨_, _, _, _, _, rfl⟩
      · exact hold
      · exact absurd rfl hne
  · intro hr
    refine ⟨fun ip hip => (mem_rows_serve he hips h).mpr ?_, fun ρ hρ hne =>
      (mem_rows_serve he hips h).mpr (Or.inl ?_)⟩
    · rcases hr.targets ip hip with ⟨pre, post, hs, hpost⟩ | hold
      · exact Or.inr ⟨pre, ip, post, hs, hpost, rfl⟩
      · exact Or.inl hold
    · obtain ⟨l, hl, hρ⟩ := mem_rows_iff_lines.mp hρ
      by_cases hhit : Hit dnsEntry ips l
      · exact hr.others l hl hhit ρ hρ hne
      · exact ⟨l, hl, hhit, hρ⟩

/-- **A second run leaves the lines**, also of records appended in between that have no tab. -/
theorem mem_lines_serve_again (hips : ∀ ip ∈ ips, IsWord ip) (h : Ended t) {rs : List Text}
    (htab : ∀ r ∈ rs, '\t' ∉ r) (hrs : ∀ r ∈ rs, '\n' ∉ r) {l : Text} :
    l ∈ lines (serve dnsEntry ips (serve dnsEntry ips t ++ unlines rs)) ↔
      l ∈ lines (serve dnsEntry ips t ++ unlines rs) := by
  have hmem := fun l => (mem_lines_serve he hips h (l := l)).1
  have hended := (mem_lines_serve he hips h (l := l)).2
  obtain ⟨hlines, hended'⟩ := lines_append_unlines hended hrs
  rw [(mem_lines_serve he hips hended').1, hlines, List.mem_append]
  constructor
  · rintro (⟨hl, _⟩ | hwritten)
    · exact hl
    · exact Or.inl ((hmem l).mpr (Or.inr hwritten))
  · intro hl
    by_cases hhit : Hit dnsEntry ips l
    · rcases hl with hl | hl
      · exact Or.inr (((hmem l).mp hl).resolve_left fun hold => hold.2 hhit)
      · obtain ⟨ip, _, v, hv, hlike⟩ := hhit
        obtain ⟨v₁, v₂, rfl, _, h₂⟩ := like_append_iff.mp hlike
        obtain ⟨d, v₃, hd, _, rfl⟩ := List.forall₂_cons_left_iff.mp h₂
        obtain rfl := hd.resolve_left (by decide)
        exact absurd (hv.subset (List.mem_append_right _ List.mem_cons_self)) (htab l hl)
    · exact Or.inl ⟨hl, hhit⟩

theorem serveOne_idem (hi : IsWord ip) (h : Ended t) :
    serveOne dnsEntry (serveOne dnsEntry t ip) ip = serveOne dnsEntry t ip := by
  have htext := isRecordText_serviceRecord he hi
  obtain ⟨hlines, hended⟩ := lines_serveOne he hi h
  have hself : Holds (serviceRecord dnsEntry ip) (serviceRecord dnsEntry ip) := .refl _
  have hlines' := (lines_serveOne he hi hended).1
  rw [hlines, List.filter_append, List.filter_filter, List.filter_cons_of_neg (by simpa using hself),
    List.filter_nil, List.append_nil] at hlines'
  simp only [Bool.and_self] at hlines'
  rw [← unlines_lines_of_ended (lines_serveOne he hi hended).2, hlines', ← hlines,
    unlines_lines_of_ended hended]

end Serve

/-! ## The files of each server -/

variable {z : Zones} {ms : List Text}

/-- **On this host** a write adds the row of its record and nothing else. -/
theorem mem_rows_serviceLocal (he : IsWord dnsEntry) (hi : IsWord ip) :
    ρ ∈ rows ((serviceLocal dnsEntry mydomain ip z).text (none, forwardFile mydomain)) ↔
      ρ ∈ rows (z.text (none, forwardFile mydomain)) ∨
        ρ = addressRow dnsEntry ["IN".toList] ip := by
  have htext := isRecordText_serviceRecord he hi
  have hrow := rowOf_serviceRecord_eq he hi
  have hne : rowOf (serviceRecord dnsEntry ip) ≠ [] := by
    rw [hrow]
    exact List.cons_ne_nil _ _
  rw [serviceLocal, dnsAppendLine, Zones.text_put_self,
    mem_rows_appendLine (blank_openLine_edit_dropMatched _ _ _) htext.oneLine hne,
    mem_rows_edit_dropMatched, hrow, mem_rows]
  constructor
  · rintro (⟨l, hl, _, hρ, rfl⟩ | rfl)
    · exact Or.inl ⟨l, hl, hρ, rfl⟩
    · exact Or.inr rfl
  · rintro (⟨l, hl, hρ, rfl⟩ | rfl)
    · by_cases hr : l = serviceRecord dnsEntry ip
      · exact Or.inr (hr ▸ hrow)
      · exact Or.inl ⟨l, hl, by simpa using hr, hρ, rfl⟩
    · exact Or.inr rfl

theorem serviceLocal_text_of_some (m f : Text) :
    (serviceLocal dnsEntry mydomain ip z).text (some m, f) = z.text (some m, f) := by
  have hk : ∀ f', ((some m, f) : ZoneKey) ≠ (none, f') := fun f' h => by cases (Prod.mk.inj h).1
  rw [serviceLocal, dnsAppendLine, Zones.text_put_of_ne _ _ (hk _), edit_text_of_ne _ (hk _)]

theorem serviceRemote_text (z : Zones) (m : Text) (k : ZoneKey) :
    (serviceRemote dnsEntry mydomain ip z m).text k =
      if k.1 = some m then
        (if k.2 = forwardFile mydomain then serveOne dnsEntry (z.text k) ip else z.text k)
      else z.text k := by
  obtain ⟨s, f⟩ := k
  have hdrop : sedDrop (serviceRecord dnsEntry ip) [] = [] := sedFilter_nil _
  unfold serviceRemote
  dsimp only
  by_cases hk : (s, f) = (some m, forwardFile mydomain)
  · obtain ⟨rfl, rfl⟩ := Prod.mk.inj hk
    rw [if_pos rfl, if_pos rfl, Zones.text_put_self, edit_text hdrop, if_pos rfl, serveOne]
  · rw [Zones.text_put_of_ne _ _ hk, edit_text_of_ne _ hk]
    by_cases hs : s = some m
    · rw [if_pos hs, if_neg fun hf => hk (Prod.ext hs hf)]
    · rw [if_neg hs]

section Targets

variable (he : IsWord dnsEntry) (hips : ∀ ip ∈ ips, IsWord ip)

include he hips

/-- **A master after the writes.** -/
theorem serviceTargets_text_master {m : Text} (hm : m ∈ ms)
    (h : Ended (z.text (some m, forwardFile mydomain))) :
    (ips.foldl (serviceTarget ms dnsEntry mydomain) z).text (some m, forwardFile mydomain) =
      serve dnsEntry ips (z.text (some m, forwardFile mydomain)) := by
  induction ips generalizing z with
  | nil => rfl
  | cons ip ips ih =>
    obtain ⟨hi, htl⟩ := List.forall_mem_cons.mp hips
    have hone : (serviceTarget ms dnsEntry mydomain z ip).text (some m, forwardFile mydomain) =
        serveOne dnsEntry (z.text (some m, forwardFile mydomain)) ip := by
      let upd := fun f t => if f = forwardFile mydomain then serveOne dnsEntry t ip else t
      have hended : ∀ f t, Ended t → Ended (upd f t) := fun f t ht => by
        dsimp only [upd]
        split
        · exact (lines_serveOne he hi ht).2
        · exact ht
      have hidem : ∀ f t, Ended t → upd f (upd f t) = upd f t := fun f t ht => by
        dsimp only [upd]
        split
        · exact serveOne_idem he hi ht
        · rfl
      rw [serviceTarget, serviceLocal_text_of_some,
        foldl_masters_text serviceRemote_text hended hidem ms z _ h,
        if_pos (List.mem_map_of_mem hm)]
      exact if_pos rfl
    rw [List.foldl_cons, ih htl (hone ▸ (lines_serveOne he hi h).2), hone]
    rfl

/-- **This host after the writes.** -/
theorem mem_rows_serviceTargets_local :
    ρ ∈ rows ((ips.foldl (serviceTarget ms dnsEntry mydomain) z).text
        (none, forwardFile mydomain)) ↔
      ρ ∈ rows (z.text (none, forwardFile mydomain)) ∨
        ∃ ip ∈ ips, ρ = addressRow dnsEntry ["IN".toList] ip := by
  induction ips generalizing z with
  | nil => simp
  | cons ip ips ih =>
    obtain ⟨hi, htl⟩ := List.forall_mem_cons.mp hips
    have hnone : ∀ ms : List Text, (ms.foldl (serviceRemote dnsEntry mydomain ip) z).text
        (none, forwardFile mydomain) = z.text (none, forwardFile mydomain) := fun ms => by
      induction ms generalizing z with
      | nil => rfl
      | cons m ms ih' => rw [List.foldl_cons, ih', serviceRemote_text, if_neg (by simp)]
    rw [List.foldl_cons, ih htl, serviceTarget, mem_rows_serviceLocal he hi, hnone,
      List.exists_mem_cons_iff, or_assoc]

end Targets

/-! ## The whole operation -/

variable {loads : Server → Text → Option Text} {reachable : Text → Bool}
  {nodes : List (Text × NodeConfig)} {cluName cluType : Text} {remoteDnsServers : List Text}
  {d : DnsService}

/-- The files after the writes, and after the synchronisation that follows if a zone was created. -/
def addedService (loads : Server → Text → Option Text) (reachable : Text → Bool) (dnsEntry : Text)
    (ips : List Text) (mydomain : Text) (remoteDnsServers : List Text) (resync : Bool) (z : Zones) :
    Zones :=
  let z := ips.foldl (serviceTarget (masters reachable remoteDnsServers) dnsEntry mydomain) z
  if resync then (syncZone z loads reachable mydomain [] remoteDnsServers).2 else z

theorem addServiceDns_zones (hne : recordTargets nodes cluName cluType ≠ []) :
    (addServiceDns loads reachable nodes cluName cluType dnsEntry mydomain remoteDnsServers d).zones =
      addedService loads reachable dnsEntry ((recordTargets nodes cluName cluType).map Prod.snd)
        mydomain remoteDnsServers
        (d.ensureZones (servers reachable remoteDnsServers) mydomain []).1
        (d.ensureZones (servers reachable remoteDnsServers) mydomain []).2.zones := by
  unfold addServiceDns
  dsimp only
  rw [if_neg hne]
  rfl

/-- **A second run has no zone to create.** -/
theorem addServiceDns_again (hne : recordTargets nodes cluName cluType ≠ []) :
    (addServiceDns loads reachable nodes cluName cluType dnsEntry mydomain remoteDnsServers
      (addServiceDns loads reachable nodes cluName cluType dnsEntry mydomain remoteDnsServers
        d)).zones =
      addedService loads reachable dnsEntry ((recordTargets nodes cluName cluType).map Prod.snd)
        mydomain remoteDnsServers false (addServiceDns loads reachable nodes cluName cluType dnsEntry
          mydomain remoteDnsServers d).zones := by
  have hdecl : ∀ s ∈ servers reachable remoteDnsServers, ∀ w ∈ (wanted mydomain []).map Prod.fst,
      (addServiceDns loads reachable nodes cluName cluType dnsEntry mydomain remoteDnsServers
        d).declared s w = true := fun s hs w hw => by
    have hd := declared_ensureZones (d := d) hs hw
    unfold addServiceDns
    dsimp only
    rw [if_neg hne]
    exact hd
  rw [addServiceDns_zones hne, ensureZones_of_declared hdecl]

/-- The synchronisation appends records to what the writes left. -/
theorem exists_addedService_text (loads : Server → Text → Option Text) (resync : Bool) {s : Server}
    (hs : s ∈ servers reachable remoteDnsServers) : ∃ rs : List Text,
    (addedService loads reachable dnsEntry ips mydomain remoteDnsServers resync z).text
        (s, forwardFile mydomain) =
      (ips.foldl (serviceTarget (masters reachable remoteDnsServers) dnsEntry mydomain) z).text
        (s, forwardFile mydomain) ++ unlines rs ∧ ∀ r ∈ rs, IsRecord r := by
  unfold addedService
  dsimp only
  cases resync with
  | false =>
    exact ⟨[], by rw [unlines_nil, List.append_nil]; rfl, fun r hr => absurd hr List.not_mem_nil⟩
  | true =>
    have hf : forwardFile mydomain ∈ zoneFiles mydomain [] := List.mem_cons_self
    obtain ⟨rs, htext, hlacks⟩ := exists_syncZone_text loads hf hs
    exact ⟨rs, htext, fun r hr => isRecord_of_lacks (hlacks r hr)⟩

section Operation

variable (he : IsWord dnsEntry) (hips : ∀ ip ∈ ips, IsWord ip) (hne : ips ≠ [])

include he hips hne

/-- The files after the writes are ended, on this host and on a master whose file was. -/
theorem finished_serviceTargets {s : Server} (hs : s ∈ servers reachable remoteDnsServers)
    (h : ∀ m ∈ masters reachable remoteDnsServers, Ended (z.text (some m, forwardFile mydomain))) :
    Blank (openLine ((ips.foldl (serviceTarget (masters reachable remoteDnsServers) dnsEntry
      mydomain) z).text (s, forwardFile mydomain))) := by
  cases s with
  | none =>
    obtain ⟨init, ip, rfl⟩ := (List.eq_nil_or_concat ips).resolve_left hne
    rw [List.concat_eq_append, List.foldl_append, List.foldl_cons, List.foldl_nil, serviceTarget,
      serviceLocal, dnsAppendLine, Zones.text_put_self, openLine_appendLine]
    exact blank_nil
  | some m =>
    have hm : m ∈ masters reachable remoteDnsServers := some_mem_servers.mp hs
    rw [serviceTargets_text_master he hips hm (h m hm)]
    have hended := (mem_lines_serve he hips (h m hm) (l := [])).2
    rw [← unlines_lines_of_ended hended, ← List.append_nil (unlines _), openLine_unlines_append]
    exact blank_nil

/-- Nothing the writes left is lost by the synchronisation. -/
theorem rows_addedService (loads : Server → Text → Option Text) (resync : Bool) {s : Server}
    (hs : s ∈ servers reachable remoteDnsServers)
    (h : ∀ m ∈ masters reachable remoteDnsServers, Ended (z.text (some m, forwardFile mydomain)))
    (hρ : ρ ∈ rows ((ips.foldl (serviceTarget (masters reachable remoteDnsServers) dnsEntry
      mydomain) z).text (s, forwardFile mydomain))) :
    ρ ∈ rows ((addedService loads reachable dnsEntry ips mydomain remoteDnsServers resync z).text
      (s, forwardFile mydomain)) := by
  obtain ⟨rs, htext, hrs⟩ := exists_addedService_text loads resync hs
  rw [htext]
  exact (mem_rows_append_unlines (finished_serviceTargets he hips hne hs h) hrs).mpr (Or.inl hρ)

/-- **A second run changes no record**, when the file of each master is ended. -/
theorem addedService_again (loads : Server → Text → Option Text) (resync : Bool)
    (h : ∀ m ∈ masters reachable remoteDnsServers, Ended (z.text (some m, forwardFile mydomain)))
    {s : Server} (hs : s ∈ servers reachable remoteDnsServers) (r : Text) :
    r ∈ zoneRecords (addedService loads reachable dnsEntry ips mydomain remoteDnsServers false
        (addedService loads reachable dnsEntry ips mydomain remoteDnsServers resync z)) s
        (forwardFile mydomain) ↔
      r ∈ zoneRecords (addedService loads reachable dnsEntry ips mydomain remoteDnsServers resync z) s
        (forwardFile mydomain) := by
  unfold zoneRecords
  cases s with
  | none =>
    -- this host adds the rows it has
    have hrows : ∀ ρ, ρ ∈ rows ((addedService loads reachable dnsEntry ips mydomain remoteDnsServers
        false (addedService loads reachable dnsEntry ips mydomain remoteDnsServers resync z)).text
        (none, forwardFile mydomain)) ↔
        ρ ∈ rows ((addedService loads reachable dnsEntry ips mydomain remoteDnsServers resync z).text
          (none, forwardFile mydomain)) := fun ρ => by
      refine (mem_rows_serviceTargets_local he hips).trans ⟨fun hρ => ?_, Or.inl⟩
      rcases hρ with hρ | ⟨ip, hip, rfl⟩
      · exact hρ
      · exact rows_addedService he hips hne loads resync hs h
          ((mem_rows_serviceTargets_local he hips).mpr (Or.inr ⟨ip, hip, rfl⟩))
    simp only [mem_records_iff, hrows]
  | some m =>
    have hm : m ∈ masters reachable remoteDnsServers := some_mem_servers.mp hs
    obtain ⟨rs, htext, hrs⟩ := exists_addedService_text (z := z) loads resync hs
    rw [serviceTargets_text_master he hips hm (h m hm)] at htext
    have htab : ∀ r ∈ rs, '\t' ∉ r := fun r hr hm => by
      rw [(hrs r hr).eq_join] at hm
      rcases mem_join hm with h | ⟨f, hf, hc⟩
      · exact absurd h (by decide)
      · exact absurd ((isField_of_mem_fieldsBy hf).2 _ hc) (by decide)
    have hline : ∀ r ∈ rs, '\n' ∉ r := fun r hr => (hrs r hr).isEntry.oneLine.not_mem
    have hended : Ended ((addedService loads reachable dnsEntry ips mydomain remoteDnsServers resync
        z).text (some m, forwardFile mydomain)) := by
      rw [htext]
      exact (lines_append_unlines (mem_lines_serve he hips (h m hm) (l := [])).2 hline).2
    have htwice : (addedService loads reachable dnsEntry ips mydomain remoteDnsServers false
        (addedService loads reachable dnsEntry ips mydomain remoteDnsServers resync z)).text
        (some m, forwardFile mydomain) = _ := serviceTargets_text_master he hips hm hended
    rw [htwice, htext, mem_records_lines, mem_records_lines (t := _ ++ _)]
    simp only [mem_lines_serve_again he hips (h m hm) htab hline]

end Operation

/-- The file of each master takes the records of a service. -/
def MastersReady (z : Zones) (ms : List Text) (dnsEntry : Text) (ips : List Text) (mydomain : Text) :
    Prop :=
  ∀ m ∈ ms, ServeReady dnsEntry ips (z.text (some m, forwardFile mydomain))

/-- **Pointing a service at its nodes.** Where the forward file of each master ends in a newline (or
is empty), and takes the records, every server holds each target and every record of another name it
had, and a second run changes nothing. When no zone had to be created, only then. -/
theorem addServiceDns_serves_iff (he : IsWord dnsEntry)
    (hips : ∀ ip ∈ (recordTargets nodes cluName cluType).map Prod.snd, IsWord ip)
    (hne : recordTargets nodes cluName cluType ≠ []) (loads : Server → Text → Option Text)
    (reachable : Text → Bool) (mydomain : Text) (remoteDnsServers : List Text) (d : DnsService) :
    let ips := (recordTargets nodes cluName cluType).map Prod.snd
    let r := d.ensureZones (servers reachable remoteDnsServers) mydomain []
    let d' := addServiceDns loads reachable nodes cluName cluType dnsEntry mydomain
      remoteDnsServers d
    let d'' := addServiceDns loads reachable nodes cluName cluType dnsEntry mydomain
      remoteDnsServers d'
    ((∀ m ∈ masters reachable remoteDnsServers,
        Ended (r.2.zones.text (some m, forwardFile mydomain))) →
      MastersReady r.2.zones (masters reachable remoteDnsServers) dnsEntry ips mydomain →
      Served d.zones d'.zones d''.zones (servers reachable remoteDnsServers) dnsEntry ips mydomain) ∧
    (r.1 = false →
      (∀ m ∈ masters reachable remoteDnsServers,
        Ended (d.zones.text (some m, forwardFile mydomain))) →
      Served d.zones d'.zones d''.zones (servers reachable remoteDnsServers) dnsEntry ips mydomain →
      MastersReady d.zones (masters reachable remoteDnsServers) dnsEntry ips mydomain) := by
  intro ips r d' d''
  have hne' : ips ≠ [] := fun h => hne (List.map_eq_nil_iff.mp h)
  have hz' : d'.zones = addedService loads reachable dnsEntry ips mydomain remoteDnsServers r.1
      r.2.zones := addServiceDns_zones hne
  have hz'' : d''.zones = addedService loads reachable dnsEntry ips mydomain remoteDnsServers false
      d'.zones := addServiceDns_again hne
  constructor
  · intro hended hready
    -- what the writes left, before any synchronisation
    have hwritten : ∀ s ∈ servers reachable remoteDnsServers,
        (∀ ip ∈ ips, addressRow dnsEntry ["IN".toList] ip ∈ rows ((ips.foldl (serviceTarget
          (masters reachable remoteDnsServers) dnsEntry mydomain) r.2.zones).text
          (s, forwardFile mydomain))) ∧
        ∀ ρ ∈ rows (r.2.zones.text (s, forwardFile mydomain)), ρ.head? ≠ some dnsEntry →
          ρ ∈ rows ((ips.foldl (serviceTarget (masters reachable remoteDnsServers) dnsEntry
            mydomain) r.2.zones).text (s, forwardFile mydomain)) := by
      intro s hs
      cases s with
      | none =>
        exact ⟨fun ip hip => (mem_rows_serviceTargets_local he hips).mpr (Or.inr ⟨ip, hip, rfl⟩),
          fun ρ hρ _ => (mem_rows_serviceTargets_local he hips).mpr (Or.inl hρ)⟩
      | some m =>
        have hm : m ∈ masters reachable remoteDnsServers := some_mem_servers.mp hs
        rw [serviceTargets_text_master he hips hm (hended m hm)]
        exact (served_iff he hips (hended m hm)).mpr (hready m hm)
    refine ⟨fun s hs ip hip => ?_, fun s hs ρ hρ hn => ?_, fun s hs q => ?_⟩
    · rw [hz']
      exact rows_addedService he hips hne' loads r.1 hs hended ((hwritten s hs).1 ip hip)
    · rw [hz']
      exact rows_addedService he hips hne' loads r.1 hs hended
        ((hwritten s hs).2 ρ (rows_ensureZones _ _ hρ) hn)
    · rw [hz'', hz']
      exact addedService_again he hips hne' loads r.1 hended hs q
  · intro hcreated hended hserved m hm
    have hd : r.2 = d := ensureZones_of_false hcreated
    have hs : some m ∈ servers reachable remoteDnsServers := some_mem_servers.mpr hm
    have htext : d'.zones.text (some m, forwardFile mydomain) =
        serve dnsEntry ips (d.zones.text (some m, forwardFile mydomain)) := by
      rw [hz', hcreated, hd]
      exact serviceTargets_text_master he hips hm (hended m hm)
    refine (served_iff he hips (hended m hm)).mp ⟨fun ip hip => ?_, fun ρ hρ hn => ?_⟩
    · rw [← htext]
      exact hserved.held _ hs ip hip
    · rw [← htext]
      exact hserved.others _ hs ρ hρ hn

/-- A cluster `c` of nodes at the addresses given. -/
def clusterAt (ips : List Text) : List (Text × NodeConfig) :=
  ips.map fun ip => (ip, fun k =>
    if k = "kcluster".toList then some "c".toList else if k = "myip".toList then some ip else none)

theorem addServiceDns_serves_iff_two_targets :
    let d := twoServers "node2         IN  A       10.0.0.2\n".toList []
    let add := addServiceDns (fun _ _ => none) (fun _ => true)
      (clusterAt ["10.0.0.1".toList, "10.0.0.2".toList]) "c".toList "rke2".toList "svc".toList
      "lab".toList ["m1".toList]
    Served d.zones (add d).zones (add (add d)).zones (servers (fun _ => true) ["m1".toList])
      "svc".toList ["10.0.0.1".toList, "10.0.0.2".toList] "lab".toList := by
  intro d add
  have hword : ∀ ip ∈ (recordTargets (clusterAt ["10.0.0.1".toList, "10.0.0.2".toList]) "c".toList
      "rke2".toList).map Prod.snd, IsWord ip := fun ip hip => by
    have htargets : (recordTargets (clusterAt ["10.0.0.1".toList, "10.0.0.2".toList]) "c".toList
        "rke2".toList).map Prod.snd = ["10.0.0.1".toList, "10.0.0.2".toList] := by decide
    rw [htargets] at hip
    rcases List.mem_cons.mp hip with rfl | hip
    · exact IsIpv4.word (by decide)
    · rw [List.mem_singleton.mp hip]
      exact IsIpv4.word (by decide)
  have hm : ∀ m ∈ masters (fun _ => true) ["m1".toList], m = "m1".toList := fun m hm => by
    simpa [masters] using hm
  have hsvc : IsWord "svc".toList := ⟨by decide, fun c hc => List.all_eq_true.mp (by decide) c hc⟩
  refine (addServiceDns_serves_iff hsvc hword (by decide) (fun _ _ => none) (fun _ => true)
    "lab".toList ["m1".toList] d).1 (fun m h => ?_) (fun m h => ?_)
  · rw [hm m h]
    decide
  · rw [hm m h]
    have hmiss : ∀ l ∈ lines (d.zones.text (some "m1".toList, forwardFile "lab".toList)),
        ¬ Hit "svc".toList ["10.0.0.1".toList, "10.0.0.2".toList] l := by decide
    refine ⟨fun ip hip => Or.inl ?_, fun l hl hhit => absurd hhit (hmiss l hl)⟩
    rcases List.mem_cons.mp hip with rfl | hip
    · exact ⟨[], ["10.0.0.2".toList], rfl, by decide⟩
    · obtain rfl := List.mem_singleton.mp hip
      exact ⟨["10.0.0.1".toList], [], rfl, by decide⟩

/-- **A target whose address begins an earlier one takes its record away on a master.** -/
theorem addServiceDns_erases_target :
    let d := twoServers [] []
    let add := addServiceDns (fun _ _ => none) (fun _ => true)
      (clusterAt ["10.0.0.14".toList, "10.0.0.1".toList]) "c".toList "rke2".toList "svc".toList
      "lab".toList ["m1".toList]
    ¬ Served d.zones (add d).zones (add (add d)).zones (servers (fun _ => true) ["m1".toList])
      "svc".toList ["10.0.0.14".toList, "10.0.0.1".toList] "lab".toList := by
  intro d add h
  have hheld := h.held (some "m1".toList) (by decide) "10.0.0.14".toList (by decide)
  exact absurd hheld (by decide)

end DnsService

end LabInABox.Dns
