import Mathlib.Tactic.IntervalCases
import LabInABox.Text.Fields

/-!
# IPv4 addresses and networks

The part of Python's `ipaddress` module that labs use, for IPv4: an address is its number below
`2 ^ 32`, `render` is `str(address)` and `parse` is `ipaddress.ip_address` (four decimal octets, no
leading zero). `Network` is `ipaddress.ip_network`: its alignment and range are fields, so a network
with host bits or past the last address cannot be built.

Results:
* `parse_render`, `render_of_parse`: texts and addresses correspond one to one, so comparing
  rendered addresses is comparing addresses.
* `mem_hosts_iff`: the addresses `hosts()` lists, with the cases of `/31` and `/32`.
-/

namespace LabInABox.Ipv4

/-- The address space: `2 ^ 32`. -/
def space : Nat := 4294967296

/-! ## Decimal numbers -/

/-- `octet_str` of an address as a number. -/
def parseOctet (t : Text) : Option Nat :=
  if t ≠ [] ∧ t.all Char.isDigit = true ∧ t.length ≤ 3 ∧ (t = ['0'] ∨ t.head? ≠ some '0') ∧
      Nat.ofDigitChars 10 t 0 ≤ 255 then some (Nat.ofDigitChars 10 t 0)
  else none

theorem digitChar_of_isDigit {c : Char} (h : c.isDigit = true) :
    ∃ d < 10, c = Nat.digitChar d ∧ c.toNat - '0'.toNat = d := by
  have hc : 48 ≤ c.toNat ∧ c.toNat ≤ 57 := by
    simp only [Char.isDigit, Bool.and_eq_true, decide_eq_true_eq] at h
    exact ⟨h.1, h.2⟩
  refine ⟨c.toNat - 48, by omega, ?_, rfl⟩
  have hofNat : c = Char.ofNat c.toNat := (Char.ofNat_toNat c).symm
  generalize c.toNat = n at hc hofNat
  subst hofNat
  obtain ⟨h1, h2⟩ := hc
  interval_cases n <;> rfl

/-- A number written without a leading zero is what its value is written as. -/
theorem toDigits_ofDigitChars {t : Text} (hne : t ≠ []) (hd : t.all Char.isDigit = true)
    (h0 : t.head? ≠ some '0') :
    Nat.toDigits 10 (Nat.ofDigitChars 10 t 0) = t ∧ 0 < Nat.ofDigitChars 10 t 0 := by
  induction t using List.reverseRecOn with
  | nil => exact absurd rfl hne
  | append_singleton init c ih =>
    rw [List.all_append, Bool.and_eq_true] at hd
    obtain ⟨d, hlt, rfl, hval⟩ := digitChar_of_isDigit (c := c) (by simpa using hd.2)
    rw [Nat.ofDigitChars_append, Nat.ofDigitChars_cons, Nat.ofDigitChars_nil, hval]
    cases init with
    | nil =>
      have hd0 : d ≠ 0 := by
        rintro rfl
        exact h0 rfl
      rw [Nat.ofDigitChars_nil, Nat.mul_zero, Nat.zero_add, Nat.toDigits_of_lt_base hlt]
      exact ⟨rfl, Nat.pos_of_ne_zero hd0⟩
    | cons x xs =>
      obtain ⟨ih1, ih2⟩ := ih (List.cons_ne_nil _ _) hd.1 h0
      rw [← Nat.toDigits_append_toDigits (by decide) ih2 hlt, ih1, Nat.toDigits_of_lt_base hlt]
      exact ⟨rfl, by omega⟩

theorem parseOctet_toDigits {n : Nat} (h : n ≤ 255) : parseOctet (Nat.toDigits 10 n) = some n := by
  have hhead : Nat.toDigits 10 n = ['0'] ∨ (Nat.toDigits 10 n).head? ≠ some '0' := by
    revert n
    decide +kernel
  have hall : (Nat.toDigits 10 n).all Char.isDigit = true :=
    List.all_eq_true.mpr fun c hc => Nat.isDigit_of_mem_toDigits (by decide) (by decide) hc
  have hlen : (Nat.toDigits 10 n).length ≤ 3 :=
    (Nat.length_toDigits_le_iff (by decide) (by decide)).mpr (by omega)
  rw [parseOctet, if_pos ⟨Nat.toDigits_ne_nil, hall, hlen, hhead, by simpa using h⟩,
    Nat.ofDigitChars_ten_toDigits]

theorem toDigits_of_parseOctet {t : Text} {n : Nat} (h : parseOctet t = some n) :
    Nat.toDigits 10 n = t ∧ n ≤ 255 := by
  rw [parseOctet] at h
  split at h
  · rename_i hc
    obtain ⟨hne, hall, _, hz, hle⟩ := hc
    obtain rfl := Option.some.inj h
    refine ⟨?_, hle⟩
    rcases hz with rfl | hz
    · rfl
    · exact (toDigits_ofDigitChars hne hall hz).1
  · exact absurd h (by simp)

/-! ## Addresses -/

/-- The four octets of an address. -/
def octets (a : Nat) : List Nat := [a / 16777216 % 256, a / 65536 % 256, a / 256 % 256, a % 256]

/-- `str(address)`. -/
def render (a : Nat) : Text := ['.'].intercalate ((octets a).map (Nat.toDigits 10))

/-- `ipaddress.ip_address(t)` for an IPv4 text. -/
def parse (t : Text) : Option Nat :=
  match (t.splitOn '.').map parseOctet with
  | [some a, some b, some c, some d] => some (a * 16777216 + b * 65536 + c * 256 + d)
  | _ => none

theorem parse_nil : parse [] = none := by decide

theorem dot_not_mem_toDigits (n : Nat) : '.' ∉ Nat.toDigits 10 n := fun h =>
  absurd (Nat.isDigit_of_mem_toDigits (by decide) (by decide) h) (by decide)

theorem splitOn_render (a : Nat) : (render a).splitOn '.' = (octets a).map (Nat.toDigits 10) := by
  refine List.splitOn_intercalate '.' (fun l hl => ?_) (by simp [octets])
  obtain ⟨n, _, rfl⟩ := List.mem_map.mp hl
  exact dot_not_mem_toDigits n

theorem parse_render {a : Nat} (h : a < space) : parse (render a) = some a := by
  have hsp : a < 4294967296 := h
  have ho : ∀ n, parseOctet (Nat.toDigits 10 (n % 256)) = some (n % 256) := fun n =>
    parseOctet_toDigits (by omega)
  rw [parse, splitOn_render]
  simp only [octets, List.map_cons, List.map_nil, ho, Option.some.injEq]
  omega

theorem render_injective {a b : Nat} (ha : a < space) (hb : b < space) (h : render a = render b) :
    a = b := by
  have := parse_render ha
  rw [h, parse_render hb] at this
  exact (Option.some.inj this).symm

theorem parse_lt {t : Text} {a : Nat} (h : parse t = some a) : a < space := by
  rw [parse] at h
  split at h
  · rename_i a1 a2 a3 a4 hm
    have hle : ∀ x, some x ∈ (t.splitOn '.').map parseOctet → x ≤ 255 := fun x hx => by
      obtain ⟨l, _, hl⟩ := List.mem_map.mp hx
      exact (toDigits_of_parseOctet hl).2
    rw [hm] at hle
    have h1 := hle a1 (by simp)
    have h2 := hle a2 (by simp)
    have h3 := hle a3 (by simp)
    have h4 := hle a4 (by simp)
    obtain rfl := Option.some.inj h
    unfold space
    omega
  · exact absurd h (by simp)

/-- **An address has one text.** -/
theorem render_of_parse {t : Text} {a : Nat} (h : parse t = some a) : render a = t := by
  rw [parse] at h
  split at h
  · rename_i a1 a2 a3 a4 hm
    obtain ⟨l1, r1, hs, h1, hm⟩ := List.map_eq_cons_iff.mp hm
    obtain ⟨l2, r2, rfl, h2, hm⟩ := List.map_eq_cons_iff.mp hm
    obtain ⟨l3, r3, rfl, h3, hm⟩ := List.map_eq_cons_iff.mp hm
    obtain ⟨l4, r4, rfl, h4, hm⟩ := List.map_eq_cons_iff.mp hm
    obtain rfl := List.map_eq_nil_iff.mp hm
    obtain ⟨e1, b1⟩ := toDigits_of_parseOctet h1
    obtain ⟨e2, b2⟩ := toDigits_of_parseOctet h2
    obtain ⟨e3, b3⟩ := toDigits_of_parseOctet h3
    obtain ⟨e4, b4⟩ := toDigits_of_parseOctet h4
    obtain rfl := Option.some.inj h
    have hoct : octets (a1 * 16777216 + a2 * 65536 + a3 * 256 + a4) = [a1, a2, a3, a4] := by
      simp only [octets, List.cons.injEq, and_true]
      omega
    rw [render, hoct, List.map_cons, List.map_cons, List.map_cons, List.map_cons, List.map_nil,
      e1, e2, e3, e4, ← hs]
    exact List.intercalate_splitOn '.'
  · exact absurd h (by simp)

/-- The text of an address is one field. -/
theorem isField_render (a : Nat) : Text.IsField Text.isSpace (render a) := by
  have hchar : ∀ c ∈ render a, c = '.' ∨ c.isDigit = true := fun c hc => by
    simp only [render, octets, List.map_cons, List.map_nil, List.intercalate_cons_cons,
      List.intercalate_singleton, List.mem_append, List.mem_singleton] at hc
    have hd : ∀ n, c ∈ Nat.toDigits 10 n → c.isDigit = true := fun n hm =>
      Nat.isDigit_of_mem_toDigits (by decide) (by decide) hm
    rcases hc with (h | h) | (h | h) | (h | h) | h
    all_goals first
      | exact Or.inl h
      | exact Or.inr (hd _ h)
  refine ⟨fun h => ?_, fun c hc => ?_⟩
  · have : '.' ∈ render a := by simp [render, octets, List.intercalate_cons_cons]
    rw [h] at this
    exact absurd this List.not_mem_nil
  · rcases hchar c hc with rfl | h
    · decide
    · obtain ⟨d, hlt, rfl, _⟩ := digitChar_of_isDigit h
      interval_cases d <;> decide

/-! ## Networks -/

/-- `ipaddress.IPv4Network`. -/
structure Network where
  /-- `network_address`. -/
  base : Nat
  /-- `prefixlen`. -/
  prefixLen : Nat
  prefixLen_le : prefixLen ≤ 32
  /-- No host bit is set. -/
  aligned : base % 2 ^ (32 - prefixLen) = 0
  base_lt : base < space

namespace Network

/-- `num_addresses`. -/
def size (n : Network) : Nat := 2 ^ (32 - n.prefixLen)

/-- `address in network`. -/
def contains (n : Network) (a : Nat) : Bool := decide (n.base ≤ a ∧ a < n.base + n.size)

/-- `list(network.hosts())`: without the network and broadcast addresses, unless there are no
others. -/
def hosts (n : Network) : List Nat :=
  if n.prefixLen = 32 then [n.base]
  else if n.prefixLen = 31 then [n.base, n.base + 1]
  else List.range' (n.base + 1) (n.size - 2)

/-- `network[1]`, an `IndexError` when there is no such address. -/
def second (n : Network) : Option Nat := if 1 < n.size then some (n.base + 1) else none

theorem size_pos (n : Network) : 0 < n.size := Nat.two_pow_pos _

theorem end_le (n : Network) : n.base + n.size ≤ space := by
  have hs : space = n.size * 2 ^ n.prefixLen := by
    rw [size, ← Nat.pow_add, Nat.sub_add_cancel n.prefixLen_le]
    rfl
  obtain ⟨k, hk⟩ := Nat.dvd_of_mod_eq_zero n.aligned
  have hk' : n.base = n.size * k := hk
  have hlt := n.base_lt
  rw [hs, hk'] at hlt
  have hkm : k < 2 ^ n.prefixLen := Nat.lt_of_mul_lt_mul_left hlt
  calc n.base + n.size = n.size * (k + 1) := by rw [hk', Nat.mul_succ]
    _ ≤ n.size * 2 ^ n.prefixLen := Nat.mul_le_mul_left _ hkm
    _ = space := hs.symm

theorem mem_hosts_iff (n : Network) {a : Nat} : a ∈ n.hosts ↔
    n.contains a = true ∧ (n.prefixLen < 31 → a ≠ n.base ∧ a + 1 ≠ n.base + n.size) := by
  have hle := n.prefixLen_le
  rw [hosts, contains, decide_eq_true_eq]
  by_cases h32 : n.prefixLen = 32
  · rw [if_pos h32, List.mem_singleton]
    have : n.size = 1 := by simp [size, h32]
    omega
  · rw [if_neg h32]
    by_cases h31 : n.prefixLen = 31
    · rw [if_pos h31]
      have : n.size = 2 := by simp [size, h31]
      simp only [List.mem_cons, List.not_mem_nil, or_false]
      omega
    · rw [if_neg h31, List.mem_range'_1]
      have : 4 ≤ n.size := by
        rw [size]
        exact Nat.pow_le_pow_right (n := 2) (by decide) (show 2 ≤ 32 - n.prefixLen by omega)
      omega

theorem lt_space_of_mem_hosts {n : Network} {a : Nat} (h : a ∈ n.hosts) : a < space := by
  have := n.end_le
  have hc := (n.mem_hosts_iff.mp h).1
  rw [contains, decide_eq_true_eq] at hc
  omega

end Network

/-- The prefix length whose netmask is `m`. -/
def maskLen (m : Nat) : Option Nat := (List.range 33).find? fun p => m = space - 2 ^ (32 - p)

/-- `_make_netmask`: a prefix length, a netmask or a host mask. -/
def parseMask (t : Text) : Option Nat :=
  if t ≠ [] ∧ t.all Char.isDigit = true ∧ Nat.ofDigitChars 10 t 0 ≤ 32 then
    some (Nat.ofDigitChars 10 t 0)
  else (parse t).bind fun m => (maskLen m).or (maskLen (space - 1 - m))

/-- The network of an address with a prefix length, without its host bits. -/
def Network.of (a p : Nat) (ha : a < space) (hp : p ≤ 32) : Network where
  base := a - a % 2 ^ (32 - p)
  prefixLen := p
  prefixLen_le := hp
  aligned := by
    rw [← Nat.dvd_iff_mod_eq_zero]
    exact Nat.dvd_sub_mod a
  base_lt := Nat.lt_of_le_of_lt (Nat.sub_le _ _) ha

/-- `ipaddress.ip_network(t, strict)` for an IPv4 text. -/
def ipNetwork (strict : Bool) (t : Text) : Option Network :=
  match t.splitOn '/' with
  | [addr] => build addr (some 32)
  | [addr, mask] => build addr (parseMask mask)
  | _ => none
where
  /-- The network of an address and a prefix length, unless `strict` refuses its host bits. -/
  build (addr : Text) (p : Option Nat) : Option Network :=
    match parse addr, p with
    | some a, some p =>
      if h : a < space ∧ p ≤ 32 then
        if strict = true ∧ a % 2 ^ (32 - p) ≠ 0 then none else some (Network.of a p h.1 h.2)
      else none
    | _, _ => none

/-- The network a CIDR text denotes, its host bits dropped: the first address and the prefix length. -/
def cidrNet (t : Text) : Option (Nat × Nat) := (ipNetwork false t).map fun n => (n.base, n.prefixLen)

end LabInABox.Ipv4
