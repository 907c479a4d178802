import Mathlib.Data.List.Basic

/-!
# `Lib.Percent` — percent-encoding of byte strings

`escape keep` writes the bytes that meet `keep` as they are and every other one as `%` and two hexadecimal digits;
`unescape` reads such a text, and fails on a `%` that is not followed by two digits. Where `%` itself is not kept,
`unescape` reads back what `escape` wrote, so escaping is injective.
-/

namespace GoErp.Lib.Percent

open List

/-- `%` -/
def percent : UInt8 := 37

/-- The digit of a number below 16, in upper case. -/
def hexDigit (n : Nat) : UInt8 := if n < 10 then UInt8.ofNat (48 + n) else UInt8.ofNat (55 + n)

def hexValue (b : UInt8) : Option Nat :=
  if 48 ≤ b ∧ b ≤ 57 then some (b.toNat - 48)
  else if 97 ≤ b ∧ b ≤ 102 then some (b.toNat - 87)
  else if 65 ≤ b ∧ b ≤ 70 then some (b.toNat - 55)
  else none

def escape (keep : UInt8 → Bool) : List UInt8 → List UInt8
  | [] => []
  | b :: bs =>
    if keep b then b :: escape keep bs
    else percent :: hexDigit (b.toNat / 16) :: hexDigit (b.toNat % 16) :: escape keep bs

def unescape : List UInt8 → Option (List UInt8)
  | [] => some []
  | b :: bs =>
    if b = percent then
      match bs with
      | hi :: lo :: rest => do
        let h ← hexValue hi
        let l ← hexValue lo
        return UInt8.ofNat (16 * h + l) :: (← unescape rest)
      | _ => none
    else do return b :: (← unescape bs)

theorem hexValue_hexDigit {n : Nat} (h : n < 16) : hexValue (hexDigit n) = some n := by
  have hall : ∀ m < 16, hexValue (hexDigit m) = some m := by decide
  exact hall n h

section

variable {keep : UInt8 → Bool}

/-- **What was escaped is read back.** -/
theorem unescape_escape (hpercent : keep percent = false) (bs : List UInt8) : unescape (escape keep bs) = some bs := by
  induction bs with
  | nil => rfl
  | cons b bs ih =>
    rw [escape]
    split
    · rename_i hkeep
      have hne : b ≠ percent := by
        rintro rfl
        rw [hpercent] at hkeep
        cases hkeep
      rw [unescape.eq_def]
      show (if b = percent then _ else _) = some (b :: bs)
      rw [if_neg hne, ih]
      rfl
    · have hlt : b.toNat < 256 := b.toNat_lt
      have hhi := hexValue_hexDigit (show b.toNat / 16 < 16 by omega)
      have hlo := hexValue_hexDigit (show b.toNat % 16 < 16 by omega)
      rw [unescape, if_pos rfl]
      simp only [hhi, hlo, ih, bind, Option.bind, pure, Nat.div_add_mod, UInt8.ofNat_toNat]

variable {bs : List UInt8}

theorem escape_injective (hpercent : keep percent = false) {bs' : List UInt8} (h : escape keep bs = escape keep bs') :
    bs = bs' := by
  have hread := unescape_escape hpercent bs
  rw [h, unescape_escape hpercent] at hread
  exact (Option.some.inj hread).symm

/-- Bytes that are all kept are written as they are. -/
theorem escape_eq_self (h : ∀ b ∈ bs, keep b = true) : escape keep bs = bs := by
  induction bs with
  | nil => rfl
  | cons b bs ih => rw [escape, if_pos (h b mem_cons_self), ih fun c hc => h c (mem_cons_of_mem b hc)]

/-- What the digits and the kept bytes have in common, every byte of the text has. -/
theorem forall_mem_escape {P : UInt8 → Prop} (hpercent : P percent) (hdigit : ∀ n < 16, P (hexDigit n))
    (hkeep : ∀ b, keep b = true → P b) (bs : List UInt8) : ∀ c ∈ escape keep bs, P c := by
  induction bs with
  | nil => exact nofun
  | cons b bs ih =>
    rw [escape]
    split
    · rename_i hb
      exact forall_mem_cons.mpr ⟨hkeep b hb, ih⟩
    have hlt : b.toNat < 256 := b.toNat_lt
    have hhi : P (hexDigit (b.toNat / 16)) := hdigit _ (by omega)
    have hlo : P (hexDigit (b.toNat % 16)) := hdigit _ (by omega)
    exact forall_mem_cons.mpr ⟨hpercent, forall_mem_cons.mpr ⟨hhi, forall_mem_cons.mpr ⟨hlo, ih⟩⟩⟩

theorem escape_eq_nil_iff : escape keep bs = [] ↔ bs = [] := by
  cases bs with
  | nil => exact iff_of_true rfl rfl
  | cons b bs =>
    rw [escape]
    split <;> exact iff_of_false (cons_ne_nil _ _) (cons_ne_nil _ _)

end

end GoErp.Lib.Percent
