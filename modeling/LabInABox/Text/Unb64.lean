import LabInABox.Text.Base64

/-!
# Base64, as Python reads it

`base64.b64decode(s)` for any text: a character outside of the alphabet is skipped, what follows the
padding is not looked at, and a group that is left unfinished is an error. `Text/Base64` has what
encoding writes.

Results:
* `unb64_b64encode`: a text that was encoded decodes to its bytes.
-/

namespace LabInABox.Text

/-- `binascii.a2b_base64`, with how many characters of a group are read, the value of the last of them
and how many `=` came after it. -/
def a2bBase64 : Text → (quad last pads : Nat) → Option (List UInt8)
  | [], quad, _, _ => if quad = 0 then some [] else none
  | c :: cs, quad, last, pads =>
    if c = '=' then
      if quad < 2 then a2bBase64 cs quad last pads
      else if 4 ≤ quad + (pads + 1) then some []
      else a2bBase64 cs quad last (pads + 1)
    else
      match sextetValue c with
      | none => a2bBase64 cs quad last pads
      | some v =>
        match quad with
        | 0 => a2bBase64 cs 1 v 0
        | 1 => (a2bBase64 cs 2 v 0).map (byte₁ last v :: ·)
        | 2 => (a2bBase64 cs 3 v 0).map (byte₂ last v :: ·)
        | _ => (a2bBase64 cs 0 v 0).map (byte₃ last v :: ·)

/-- `base64.b64decode(text)`; none where it is a `ValueError`. -/
def unb64 (t : Text) : Option (List UInt8) :=
  if ∀ c ∈ t, c.toNat < 128 then a2bBase64 t 0 0 0 else none

/-! ## What was encoded -/

section Groups

variable {n : Nat} (h : n < 64) (cs : Text) (last pads : Nat)
include h

theorem a2bBase64_zero : a2bBase64 (sextet n :: cs) 0 last pads = a2bBase64 cs 1 n 0 := by
  rw [a2bBase64, if_neg (sextet_ne_pad h), sextetValue_sextet h]
  rfl

theorem a2bBase64_one : a2bBase64 (sextet n :: cs) 1 last pads =
    (a2bBase64 cs 2 n 0).map (byte₁ last n :: ·) := by
  rw [a2bBase64, if_neg (sextet_ne_pad h), sextetValue_sextet h]
  rfl

theorem a2bBase64_two : a2bBase64 (sextet n :: cs) 2 last pads =
    (a2bBase64 cs 3 n 0).map (byte₂ last n :: ·) := by
  rw [a2bBase64, if_neg (sextet_ne_pad h), sextetValue_sextet h]
  rfl

theorem a2bBase64_three : a2bBase64 (sextet n :: cs) 3 last pads =
    (a2bBase64 cs 0 n 0).map (byte₃ last n :: ·) := by
  rw [a2bBase64, if_neg (sextet_ne_pad h), sextetValue_sextet h]
  rfl

end Groups

theorem a2bBase64_b64encode : ∀ (bytes : List UInt8) (last pads : Nat),
    a2bBase64 (b64encode bytes) 0 last pads = some bytes
  | [], _, _ => rfl
  | [a], last, pads => by
    have ha := a.toNat_lt
    rw [b64encode, a2bBase64_zero (by omega), a2bBase64_one (by omega), byte₁_eq a (by omega)]
    rfl
  | [a, b], last, pads => by
    have ha := a.toNat_lt
    have hb := b.toNat_lt
    rw [b64encode, a2bBase64_zero (by omega), a2bBase64_one (by omega), a2bBase64_two (by omega),
      byte₁_eq a (by omega), byte₂_eq b (by omega) (by omega)]
    rfl
  | a :: b :: c :: rest, last, pads => by
    have ha := a.toNat_lt
    have hb := b.toNat_lt
    have hc := c.toNat_lt
    rw [b64encode, a2bBase64_zero (by omega), a2bBase64_one (by omega), a2bBase64_two (by omega),
      a2bBase64_three (by omega), byte₁_eq a (by omega), byte₂_eq b (by omega) (by omega),
      byte₃_eq c (by omega), a2bBase64_b64encode rest]
    rfl

theorem ascii_sextet (n : Nat) : (sextet n).toNat < 128 := by
  have hall : ∀ c ∈ alphabet, c.toNat < 128 := by decide
  unfold sextet
  rw [List.getD_eq_getElem?_getD]
  cases hn : alphabet[n]? with
  | none => exact Nat.lt_of_sub_eq_succ rfl
  | some c => exact hall c (List.mem_of_getElem? hn)

theorem ascii_b64encode : ∀ (bytes : List UInt8), ∀ c ∈ b64encode bytes, c.toNat < 128
  | [], _, hc => absurd hc List.not_mem_nil
  | [a], c, hc => by
    rw [b64encode] at hc
    simp only [List.mem_cons, List.not_mem_nil, or_false] at hc
    rcases hc with rfl | rfl | rfl | rfl
    · exact ascii_sextet _
    · exact ascii_sextet _
    · decide
    · decide
  | [a, b], c, hc => by
    rw [b64encode] at hc
    simp only [List.mem_cons, List.not_mem_nil, or_false] at hc
    rcases hc with rfl | rfl | rfl | rfl
    · exact ascii_sextet _
    · exact ascii_sextet _
    · exact ascii_sextet _
    · decide
  | a :: b :: c' :: rest, c, hc => by
    rw [b64encode] at hc
    simp only [List.mem_cons] at hc
    rcases hc with rfl | rfl | rfl | rfl | hc
    · exact ascii_sextet _
    · exact ascii_sextet _
    · exact ascii_sextet _
    · exact ascii_sextet _
    · exact ascii_b64encode rest c hc

/-- **What was encoded decodes** to its bytes. -/
theorem unb64_b64encode (bytes : List UInt8) : unb64 (b64encode bytes) = some bytes := by
  unfold unb64
  rw [if_pos (ascii_b64encode bytes), a2bBase64_b64encode]

end LabInABox.Text
