import Mathlib.Tactic.IntervalCases
import LabInABox.Text.Fields

/-!
# Base64

`base64.b64encode` and `base64.b64decode`: three bytes as four characters of six bits, with `=` at the
end. Decoding takes what encoding writes; any other text counts as malformed.

Results:
* `b64decode_b64encode`: a text that was encoded decodes to its bytes.
-/

namespace LabInABox.Text

/-- The characters of six bits, in the order of their values. -/
def alphabet : List Char :=
  "ABCDEFGHIJKLMNOPQRSTUVWXYZabcdefghijklmnopqrstuvwxyz0123456789+/".toList

/-- The character of a value. -/
def sextet (n : Nat) : Char := alphabet.getD n '='

/-- The value of a character. -/
def sextetValue (c : Char) : Option Nat := alphabet.findIdx? (· = c)

theorem sextetValue_sextet {n : Nat} (h : n < 64) : sextetValue (sextet n) = some n := by
  have hall : ∀ n < 64, sextetValue (sextet n) = some n := by decide
  exact hall n h

theorem sextetValue_pad : sextetValue '=' = none := by decide

/-- `base64.b64encode(raw)`. -/
def b64encode : List UInt8 → Text
  | [] => []
  | [a] => [sextet (a.toNat / 4), sextet (a.toNat % 4 * 16), '=', '=']
  | [a, b] => [sextet (a.toNat / 4), sextet (a.toNat % 4 * 16 + b.toNat / 16), sextet (b.toNat % 16 * 4), '=']
  | a :: b :: c :: rest =>
    sextet (a.toNat / 4) :: sextet (a.toNat % 4 * 16 + b.toNat / 16) ::
      sextet (b.toNat % 16 * 4 + c.toNat / 64) :: sextet (c.toNat % 64) :: b64encode rest

/-- The first byte of a group. -/
def byte₁ (i j : Nat) : UInt8 := UInt8.ofNat (i * 4 + j / 16)

/-- The second. -/
def byte₂ (j k : Nat) : UInt8 := UInt8.ofNat (j % 16 * 16 + k / 4)

/-- The third. -/
def byte₃ (k l : Nat) : UInt8 := UInt8.ofNat (k % 4 * 64 + l)

/-- `base64.b64decode(text)`. -/
def b64decode : Text → Option (List UInt8)
  | [] => some []
  | c₁ :: c₂ :: c₃ :: c₄ :: rest => do
    let i ← sextetValue c₁
    let j ← sextetValue c₂
    if rest = [] ∧ c₄ = '=' then
      if c₃ = '=' then return [byte₁ i j]
      let k ← sextetValue c₃
      return [byte₁ i j, byte₂ j k]
    let k ← sextetValue c₃
    let l ← sextetValue c₄
    let bytes ← b64decode rest
    return byte₁ i j :: byte₂ j k :: byte₃ k l :: bytes
  | _ => none

theorem byte₁_eq (a : UInt8) {j : Nat} (h : j / 16 = a.toNat % 4) : byte₁ (a.toNat / 4) j = a := by
  have hn : a.toNat / 4 * 4 + j / 16 = a.toNat := by omega
  rw [byte₁, hn, UInt8.ofNat_toNat]

theorem byte₂_eq (b : UInt8) {j k : Nat} (hj : j % 16 = b.toNat / 16) (hk : k / 4 = b.toNat % 16) :
    byte₂ j k = b := by
  have hn : j % 16 * 16 + k / 4 = b.toNat := by omega
  rw [byte₂, hn, UInt8.ofNat_toNat]

theorem byte₃_eq (c : UInt8) {k : Nat} (h : k % 4 = c.toNat / 64) : byte₃ k (c.toNat % 64) = c := by
  have hn : k % 4 * 64 + c.toNat % 64 = c.toNat := by omega
  rw [byte₃, hn, UInt8.ofNat_toNat]

theorem sextet_ne_pad {n : Nat} (h : n < 64) : sextet n ≠ '=' := by
  intro he
  have hv := sextetValue_sextet h
  rw [he, sextetValue_pad] at hv
  cases hv

/-- **What was encoded decodes** to its bytes. -/
theorem b64decode_b64encode : ∀ bytes : List UInt8, b64decode (b64encode bytes) = some bytes
  | [] => rfl
  | [a] => by
    have ha := a.toNat_lt
    rw [b64encode, b64decode, sextetValue_sextet (by omega), sextetValue_sextet (by omega)]
    simp only [Option.bind_eq_bind, Option.bind_some, and_self, if_true]
    rw [byte₁_eq a (by omega)]
    rfl
  | [a, b] => by
    have ha := a.toNat_lt
    have hb := b.toNat_lt
    rw [b64encode, b64decode, sextetValue_sextet (by omega), sextetValue_sextet (by omega)]
    have hpad : sextet (b.toNat % 16 * 4) ≠ '=' := sextet_ne_pad (by omega)
    simp only [Option.bind_eq_bind, Option.bind_some, and_self, if_true]
    rw [if_neg hpad, sextetValue_sextet (by omega), byte₁_eq a (by omega)]
    simp only [Option.bind_some]
    rw [byte₂_eq b (by omega) (by omega)]
    rfl
  | a :: b :: c :: rest => by
    have ha := a.toNat_lt
    have hb := b.toNat_lt
    have hc := c.toNat_lt
    have hpad : sextet (c.toNat % 64) ≠ '=' := sextet_ne_pad (by omega)
    rw [b64encode, b64decode, sextetValue_sextet (by omega), sextetValue_sextet (by omega)]
    simp only [Option.bind_eq_bind, Option.bind_some]
    rw [if_neg fun h => hpad h.2, sextetValue_sextet (by omega), sextetValue_sextet (by omega),
      b64decode_b64encode rest]
    simp only [Option.bind_some]
    rw [byte₁_eq a (by omega), byte₂_eq b (by omega) (by omega), byte₃_eq c (by omega)]
    rfl

end LabInABox.Text
