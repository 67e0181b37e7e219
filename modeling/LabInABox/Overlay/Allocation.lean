import LabInABox.Objects
import LabInABox.Overlay.Parallel

/-!
# The addresses of the overlay

`_allocate_overlay_ip` and `retire_site` (`libs/overlay.py`) over runs of calls, on the files of
`Registry`: who holds which address of one network.

* `Ledger` is what the calls said: the address that was returned for a name, until its site is
  retired. A site that the hub does not have is not retired.
* The other registries change as other calls like.

Results:
* `allocateOverlayIp_spec`: what an allocation gives on a file that holds the ledger.
* `sound_of_reached`: addresses are distinct, usable and kept, and run out only when all are held, as
  long as the names are single words.
* `blank_shares_address`: a name with a blank is not found in the file again, and its address is handed
  out to the next.
-/

namespace LabInABox.Overlay

open Text Ipv4

/-! ## The ledger -/

/-- The address of each name. -/
abbrev Ledger := Text → Option Text

/-- The hub's registries, next to the ledger. -/
abbrev Books := Hub × Ledger

/-- What a call means for the ledger. -/
def Call.book (st : Books) : Call → Ledger
  | .allocateOverlayIp s c =>
    match (Call.allocateOverlayIp s c).returned st.1 with
    | some ip => Function.update st.2 s (some ip)
    | none => st.2
  | .retireSite s => if siteCidr st.1 s = [] then st.2 else Function.update st.2 s none
  | _ => st.2

/-- A call. -/
def bookStep (st : Books) (c : Call) : Books := (c.run st.1, c.book st)

/-- A call about a name that the hub's files can hold: one word to allocate, no character that `sed`
takes otherwise to retire. All allocations are of one network. -/
def NameOk (cidr : Text) : Call → Prop
  | .allocateOverlayIp s c => c = cidr ∧ IsField isSpace s
  | .retireSite s => ∀ c ∈ s, Plain c
  | _ => True

instance NameOk.decidable (cidr : Text) : (c : Call) → Decidable (NameOk cidr c)
  | .allocateOverlayIp s c => inferInstanceAs (Decidable (c = cidr ∧ IsField isSpace s))
  | .retireSite s => inferInstanceAs (Decidable (∀ c ∈ s, Plain c))
  | .registerSite _ _ => isTrue trivial
  | .registerNode _ _ _ => isTrue trivial
  | .forgetNode _ => isTrue trivial
  | .registerDnsServer _ _ _ => isTrue trivial

/-- An address to hand out: not that of the network, of its broadcasts or of the hub. -/
def Usable (net : Network) (a : Nat) : Prop :=
  a ∈ net.hosts ∧ a ≠ net.base ∧ a + 1 ≠ net.base + net.size ∧ net.second ≠ some a

/-- No two names hold one address. -/
def Injective (m : Ledger) : Prop := ∀ s s' ip, m s = some ip → m s' = some ip → s = s'

/-- The addresses are distinct and usable; every call keeps the address of a name, unless it retires
its site; and an allocation fails only when every other host address is held. -/
structure Sound (cidr : Text) (net : Network) (st : Books) : Prop where
  injective : Injective st.2
  usable : ∀ s ip, st.2 s = some ip → ∃ a, Usable net a ∧ ip = render a
  keeps : ∀ c, NameOk cidr c → ∀ s ip, st.2 s = some ip →
    (∀ s', c = .retireSite s' → s' = s → siteCidr st.1 s' = []) → (bookStep st c).2 s = some ip
  exhausted : ∀ s, (Call.allocateOverlayIp s cidr).returned st.1 = none →
    ∀ a ∈ net.hosts, net.second ≠ some a → ∃ s', st.2 s' = some (render a)

/-! ## One call -/

/-- The file holds the ledger, whose addresses are distinct and usable. -/
structure Booked (net : Network) (st : Books) : Prop where
  holds : Holds pairRow (st.1 .allocations) st.2
  injective : Injective st.2
  usable : ∀ s ip, st.2 s = some ip → ∃ a, Usable net a ∧ ip = render a

variable {cidr : Text} {net : Network} {st : Books}

theorem usable_iff (hp : net.prefixLen ≤ 30) {a : Nat} :
    Usable net a ↔ a ∈ net.hosts ∧ net.second ≠ some a := by
  refine ⟨fun h => ⟨h.1, h.2.2.2⟩, fun h => ?_⟩
  have hb := (net.mem_hosts_iff.mp h.1).2 (by omega)
  exact ⟨h.1, hb.1, hb.2, h.2⟩

theorem exists_second (hp : net.prefixLen ≤ 30) : ∃ hub, net.second = some hub := by
  have hsize : 1 < net.size := Nat.one_lt_two_pow (by omega)
  exact ⟨_, if_pos hsize⟩

/-- **What an allocation gives**: the address in the file; else one that is usable and nobody's; else
nothing, and then every one is somebody's. -/
theorem allocateOverlayIp_spec (hnet : ipNetwork true cidr = some net) (hp : net.prefixLen ≤ 30)
    {file : Text} {m : Ledger} (hrep : Represents (pairRows file) m)
    (husable : ∀ s ip, m s = some ip → ∃ a, Usable net a ∧ ip = render a) (name : Text) :
    (∃ ip, m name = some ip ∧ allocateOverlayIp name cidr file = some (ip, false)) ∨
      m name = none ∧
        ((∃ a, Usable net a ∧ (∀ s, m s ≠ some (render a)) ∧
            allocateOverlayIp name cidr file = some (render a, true)) ∨
          allocateOverlayIp name cidr file = none ∧
            ∀ a, Usable net a → ∃ s, m s = some (render a)) := by
  obtain ⟨hubIp, hhub⟩ := exists_second hp
  have hparse : ∀ r ∈ pairRows file, ∃ a, parse r.2 = some a := by
    intro r hr
    obtain ⟨a, ha, hrender⟩ := husable r.1 r.2 ((hrep.mem_iff r.1 r.2).mp hr)
    exact ⟨a, by rw [hrender, parse_render (Network.lt_space_of_mem_hosts ha.1)]⟩
  obtain ⟨used, hused⟩ := exists_mapM_eq_some hparse
  have hmem (a : Nat) (ha : a ∈ net.hosts) : a ∈ used ↔ ∃ s, m s = some (render a) := by
    rw [mem_of_mapM_eq_some hused]
    constructor
    · rintro ⟨r, hr, hpa⟩
      refine ⟨r.1, ?_⟩
      rw [render_of_parse hpa]
      exact (hrep.mem_iff r.1 r.2).mp hr
    · rintro ⟨s, hs⟩
      exact ⟨(s, render a), (hrep.mem_iff s _).mpr hs,
        parse_render (Network.lt_space_of_mem_hosts ha)⟩
  have hval : allocateOverlayIp name cidr file =
      match m name with
      | some ip => some (ip, false)
      | none => (net.hosts.find? fun a => a ≠ hubIp ∧ a ∉ used).map fun a => (render a, true) := by
    simp only [allocateOverlayIp, hnet, hhub, hused, Option.bind_eq_bind, Option.bind_some,
      hrep.dictGet_eq]
    cases m name with
    | some ip => rfl
    | none =>
      dsimp only
      rw [Option.map_eq_bind]
      rfl
  rw [hval]
  cases hm : m name with
  | some ip => exact Or.inl ⟨ip, rfl, rfl⟩
  | none =>
    refine Or.inr ⟨rfl, ?_⟩
    dsimp only
    cases hfind : net.hosts.find? fun a => a ≠ hubIp ∧ a ∉ used with
    | some a =>
      have ha := List.mem_of_find?_eq_some hfind
      have hc := List.find?_some hfind
      simp only [decide_eq_true_eq] at hc
      refine Or.inl ⟨a, (usable_iff hp).mpr ⟨ha, ?_⟩, fun s hs => hc.2 ((hmem a ha).mpr ⟨s, hs⟩), rfl⟩
      rw [hhub]
      exact fun he => hc.1 (Option.some.inj he).symm
    | none =>
      refine Or.inr ⟨rfl, fun a ha => (hmem a ha.1).mp ?_⟩
      have hc := List.find?_eq_none.mp hfind a ha.1
      by_contra hn
      refine hc (decide_eq_true ⟨?_, hn⟩)
      rintro rfl
      exact ha.2.2.2 hhub

/-- An allocation keeps the ledger, or adds an address that is nobody's. -/
theorem Booked.book_allocate (h : Booked net st) (hnet : ipNetwork true cidr = some net)
    (hp : net.prefixLen ≤ 30) (s : Text) :
    Call.book st (.allocateOverlayIp s cidr) = st.2 ∨
      ∃ a, Usable net a ∧ st.2 s = none ∧ (∀ s', st.2 s' ≠ some (render a)) ∧
        Call.book st (.allocateOverlayIp s cidr) = Function.update st.2 s (some (render a)) := by
  unfold Call.book Call.returned
  dsimp only
  rcases allocateOverlayIp_spec hnet hp h.holds.pairRows h.usable s with
    ⟨ip, hs, ha⟩ | ⟨hs, ⟨a, hau, hfree, ha⟩ | ⟨ha, _⟩⟩
  · refine Or.inl ?_
    rw [ha]
    show Function.update st.2 s (some ip) = st.2
    rw [← hs, Function.update_eq_self]
  · refine Or.inr ⟨a, hau, hs, hfree, ?_⟩
    rw [ha]
    rfl
  · refine Or.inl ?_
    rw [ha]
    rfl

/-- The address of a name is kept, unless its site is retired. -/
theorem Booked.keeps (h : Booked net st) (hnet : ipNetwork true cidr = some net)
    (hp : net.prefixLen ≤ 30) {c : Call} (hc : NameOk cidr c) {s ip : Text} (hs : st.2 s = some ip)
    (hret : ∀ s', c = .retireSite s' → s' = s → siteCidr st.1 s' = []) :
    (bookStep st c).2 s = some ip := by
  cases c with
  | allocateOverlayIp s' cidr' =>
    obtain ⟨rfl, _⟩ := hc
    show Call.book st (.allocateOverlayIp s' cidr') s = some ip
    rcases h.book_allocate hnet hp s' with hb | ⟨a, _, hnone, _, hb⟩
    · rw [hb, hs]
    · rw [hb, Function.update_of_ne]
      · exact hs
      · rintro rfl
        rw [hs] at hnone
        cases hnone
  | retireSite s' =>
    show (if siteCidr st.1 s' = [] then st.2 else Function.update st.2 s' none) s = some ip
    split
    · exact hs
    · rename_i hsite
      rw [Function.update_of_ne]
      · exact hs
      · rintro rfl
        exact hsite (hret s rfl rfl)
  | registerSite _ _ => exact hs
  | registerNode _ _ _ => exact hs
  | forgetNode _ => exact hs
  | registerDnsServer _ _ _ => exact hs

theorem isField_of_siteCidr {hub : Hub} {s : Text} (h : siteCidr hub s ≠ []) : IsField isSpace s := by
  have hmem : s ∈ (listOtherSites hub none).map Prod.fst := by
    by_contra hn
    exact h (by rw [siteCidr, dictGet_eq_none hn]; rfl)
  obtain ⟨p, hp, rfl⟩ := List.mem_map.mp hmem
  obtain ⟨l, _, hl⟩ := List.mem_filterMap.mp (List.mem_of_mem_filter hp)
  split at hl
  · rename_i a b hf
    obtain rfl := Option.some.inj hl
    exact isField_of_mem_fieldsBy (t := l) (by rw [← fields, hf]; exact List.mem_cons_self)
  · cases hl

/-- **One call** keeps the books. -/
theorem booked_step (hnet : ipNetwork true cidr = some net) (hp : net.prefixLen ≤ 30)
    (h : Booked net st) {c : Call} (hc : NameOk cidr c) : Booked net (bookStep st c) := by
  cases c with
  | allocateOverlayIp s cidr' =>
    obtain ⟨rfl, hs⟩ := hc
    have hholds : Holds pairRow ((Call.allocateOverlayIp s cidr').run st.1 .allocations) _ :=
      h.holds.allocate hs
    rcases h.book_allocate hnet hp s with hb | ⟨a, hau, _, hfree, hb⟩
    · have hsame : (bookStep st (.allocateOverlayIp s cidr')).2 = st.2 := hb
      refine ⟨hholds, ?_, ?_⟩
      · rw [hsame]
        exact h.injective
      · rw [hsame]
        exact h.usable
    · have hnew : (bookStep st (.allocateOverlayIp s cidr')).2 =
          Function.update st.2 s (some (render a)) := hb
      have hcases (x ip : Text) (hx : (bookStep st (.allocateOverlayIp s cidr')).2 x = some ip) :
          x = s ∧ ip = render a ∨ st.2 x = some ip := by
        rw [hnew] at hx
        by_cases hxs : x = s
        · rw [hxs, Function.update_self] at hx
          exact Or.inl ⟨hxs, (Option.some.inj hx).symm⟩
        · rw [Function.update_of_ne hxs] at hx
          exact Or.inr hx
      refine ⟨hholds, fun x y ip hx hy => ?_, fun x ip hx => ?_⟩
      · rcases hcases x ip hx with ⟨hxs, hip⟩ | hx'
        · rcases hcases y ip hy with ⟨hys, _⟩ | hy'
          · rw [hxs, hys]
          · exact absurd (hip ▸ hy') (hfree y)
        · rcases hcases y ip hy with ⟨_, hip⟩ | hy'
          · exact absurd (hip ▸ hx') (hfree x)
          · exact h.injective x y ip hx' hy'
      · rcases hcases x ip hx with ⟨_, hip⟩ | hx'
        · exact ⟨a, hau, hip⟩
        · exact h.usable x ip hx'
  | retireSite s =>
    by_cases hsite : siteCidr st.1 s = []
    · have hbook : (bookStep st (.retireSite s)) = st := by
        unfold bookStep Call.run Call.book retireSite
        dsimp only
        rw [if_pos hsite, if_pos hsite]
      rw [hbook]
      exact h
    · have hrun : (bookStep st (.retireSite s)).1 .allocations =
          sedDelete (sitePattern s) (st.1 .allocations) := by
        show (retireSite st.1 s).2 .allocations = _
        rw [retireSite, if_neg hsite]
      have hbook : (bookStep st (.retireSite s)).2 = Function.update st.2 s none := if_neg hsite
      have hsub (x ip : Text) (hx : (bookStep st (.retireSite s)).2 x = some ip) :
          st.2 x = some ip := by
        rw [hbook] at hx
        by_cases hxs : x = s
        · rw [hxs, Function.update_self] at hx
          cases hx
        · rwa [Function.update_of_ne hxs] at hx
      refine ⟨?_, fun x y ip hx hy => h.injective x y ip (hsub x ip hx) (hsub y ip hy),
        fun x ip hx => h.usable x ip (hsub x ip hx)⟩
      have hsel : sedSelects (sitePattern s) (st.1 .allocations) (fun fs => fs.head? == some s) = true := by
        obtain ⟨es, ht, _⟩ := h.holds
        exact sedSelects_sitePattern ht (fun _ => Nat.le_refl 2) (isField_of_siteCidr hsite) hc
      have hd := h.holds.sedDelete hsel
      rw [filter_key_eq_update _ _ _ fun _ => rfl] at hd
      rw [hrun, hbook]
      exact hd
  | registerSite _ _ => exact ⟨h.holds, h.injective, h.usable⟩
  | registerNode _ _ _ => exact ⟨h.holds, h.injective, h.usable⟩
  | forgetNode _ => exact ⟨h.holds, h.injective, h.usable⟩
  | registerDnsServer _ _ _ => exact ⟨h.holds, h.injective, h.usable⟩

theorem Booked.sound (h : Booked net st) (hnet : ipNetwork true cidr = some net)
    (hp : net.prefixLen ≤ 30) : Sound cidr net st := by
  refine ⟨h.injective, h.usable, fun c hc s ip hs hret => h.keeps hnet hp hc hs hret,
    fun s hnone a ha hne => ?_⟩
  unfold Call.returned at hnone
  dsimp only at hnone
  rw [Option.map_eq_none_iff] at hnone
  rcases allocateOverlayIp_spec hnet hp h.holds.pairRows h.usable s with
    ⟨ip, _, hs⟩ | ⟨_, ⟨b, _, _, hs⟩ | ⟨_, hall⟩⟩
  · rw [hs] at hnone
    cases hnone
  · rw [hs] at hnone
    cases hnone
  · exact hall a ((usable_iff hp).mpr ⟨ha, hne⟩)

/-! ## Runs -/

/-- **Addresses are distinct, usable and kept**, and run out only when all are held, after any calls
about names that the files can hold. -/
theorem sound_of_reached (hnet : ipNetwork true cidr = some net) (hp : net.prefixLen ≤ 30) {hub : Hub}
    (h₀ : hub .allocations = [])
    (h : Reached (fun _ c => NameOk cidr c) bookStep (hub, fun _ => none) st) : Sound cidr net st := by
  have hbooked : Booked net st := by
    refine h.invariant ⟨?_, ?_, ?_⟩ fun s c hs hc => booked_step hnet hp hs hc
    · show Holds pairRow (hub .allocations) fun _ => none
      rw [h₀]
      exact Holds.empty pairRow
    · intro s s' ip hs
      cases hs
    · intro s ip hs
      cases hs
  exact hbooked.sound hnet hp

/-- A freed address is handed out again. -/
theorem sound_of_reached_again :
    let cidr := "10.99.0.0/29".toList
    let calls : List Call := [.registerSite "aws-a".toList "10.1.0.0/24".toList,
      .allocateOverlayIp "aws-a".toList cidr, .allocateOverlayIp "aws-b".toList cidr,
      .retireSite "aws-a".toList, .allocateOverlayIp "gcp-c".toList cidr]
    Sound cidr ((ipNetwork true cidr).get (by decide))
      (calls.foldl bookStep (fun _ => [], fun _ => none)) :=
  sound_of_reached (Option.some_get _).symm (by decide) rfl (Reached.start.run (by decide))

/-- **A name with a blank shares its address**: its line has three fields, which is not read as an
allocation. -/
theorem blank_shares_address :
    let cidr := "10.99.0.0/29".toList
    let calls : List Call := [.allocateOverlayIp (siteNameFor "aws".toList "my lab".toList) cidr,
      .allocateOverlayIp (siteNameFor "gcp".toList []) cidr]
    ¬ Injective (calls.foldl bookStep (fun _ => [], fun _ => none)).2 := by
  intro cidr calls h
  have hsame := h "aws-my lab".toList "gcp-default".toList "10.99.0.2".toList (by decide)
    (by decide)
  exact absurd hsame (by decide)

end LabInABox.Overlay
