import Mathlib.Data.List.Basic

/-!
# `Lib.Hex` — hexadecimal text of a byte string

Two digits a byte, the high half first. Decoding takes digits of either case and refuses everything else, and
reads back what was encoded.
-/

namespace GoErp.Lib.Hex

/-- The lower-case digit of a number below 16. -/
def digit (n : Nat) : Char := if n < 10 then Char.ofNat ('0'.toNat + n) else Char.ofNat ('a'.toNat + (n - 10))

/-- The number of a digit in either case. -/
def value (c : Char) : Option Nat :=
  if '0' ≤ c ∧ c ≤ '9' then some (c.toNat - '0'.toNat)
  else if 'a' ≤ c ∧ c ≤ 'f' then some (c.toNat - 'a'.toNat + 10)
  else if 'A' ≤ c ∧ c ≤ 'F' then some (c.toNat - 'A'.toNat + 10)
  else none

/-- Two digits for each byte, the high one first. -/
def encode : List UInt8 → List Char
  | [] => []
  | b :: bs => digit (b.toNat / 16) :: digit (b.toNat % 16) :: encode bs

/-- `encoding/hex.DecodeString`: an odd length or another character is an error. -/
def decode : List Char → Option (List UInt8)
  | [] => some []
  | [_] => none
  | hi :: lo :: cs => do
    let h ← value hi
    let l ← value lo
    let bs ← decode cs
    return UInt8.ofNat (16 * h + l) :: bs

theorem value_digit {n : Nat} (h : n < 16) : value (digit n) = some n := by
  have hall : ∀ m < 16, value (digit m) = some m := by decide
  exact hall n h

/-- What is encoded is read back. -/
@[simp] theorem decode_encode (bs : List UInt8) : decode (encode bs) = some bs := by
  induction bs with
  | nil => rfl
  | cons b bs ih =>
    have hlt : b.toNat < 256 := b.toNat_lt
    have hhi : value (digit (b.toNat / 16)) = some (b.toNat / 16) := value_digit (by omega)
    have hlo : value (digit (b.toNat % 16)) = some (b.toNat % 16) := value_digit (by omega)
    simp only [encode, decode, hhi, hlo, ih, bind, Option.bind, pure, Nat.div_add_mod, UInt8.ofNat_toNat]

end GoErp.Lib.Hex
