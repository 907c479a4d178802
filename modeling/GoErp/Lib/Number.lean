import Mathlib.Data.List.TakeWhile
import Mathlib.Data.Rat.Floor
import Mathlib.Algebra.Order.Field.Rat

/-!
# `Lib.Number` — numerals, 64-bit integers and binary64 numbers

The exact value of a decimal numeral as a rational, and the two machine readings of it: a signed 64-bit
integer, which is exact or refused, and a binary64 number, which is the nearest one, ties to even. A
binary64 number is kept as the rational it denotes, so that comparing two of them is comparing rationals.
-/

namespace GoErp.Lib.Number

open List

def digitsVal (ds : List Char) : Nat := Nat.ofDigitChars 10 ds 0

/-- Digits, at least one. -/
def isDigits (ds : List Char) : Bool := ds.all Char.isDigit && !ds.isEmpty

/-- The value of digits with at most one point among them. -/
def decimal? (text : String) : Option ℚ :=
  let int := text.toList.takeWhile (· ≠ '.')
  match text.toList.dropWhile (· ≠ '.') with
  | [] => if isDigits int then some (digitsVal int) else none
  | _ :: frac => if isDigits (int ++ frac) then some (digitsVal (int ++ frac) / 10 ^ frac.length) else none

/-- An unsigned numeral read as a signed 64-bit integer. -/
def parseInt64 (text : String) : Option ℤ :=
  if isDigits text.toList ∧ digitsVal text.toList < 2 ^ 63 then some (digitsVal text.toList) else none

/-- The nearest integer, ties to even. -/
def roundHalfEven (x : ℚ) : ℤ :=
  if x - ⌊x⌋ < 1 / 2 then ⌊x⌋
  else if 1 / 2 < x - ⌊x⌋ then ⌊x⌋ + 1
  else if ⌊x⌋ % 2 = 0 then ⌊x⌋
  else ⌊x⌋ + 1

/-- The binary64 number nearest to a non-negative rational; `none` beyond the finite range. In units of
    `2 ^ -1074`, the least positive number, a number has 53 significant bits. -/
def roundFloat64 (q : ℚ) : Option ℚ :=
  let x := q * 2 ^ 1074
  let quantum : ℚ := 2 ^ (Nat.log2 ⌊x⌋.toNat - 52)
  let y := roundHalfEven (x / quantum) * quantum
  if y < 2 ^ (1024 + 1074) then some (y / 2 ^ 1074) else none

/-- A numeral read as a binary64 number. -/
def parseFloat64 (text : String) : Option ℚ := (decimal? text).bind roundFloat64

/-- The binary64 number nearest to a 64-bit integer. -/
def float64OfInt (i : ℤ) : ℚ :=
  if i < 0 then -((roundFloat64 (-i)).getD 0) else (roundFloat64 i).getD 0

/-- A numeral without a point has its integer's value. -/
theorem decimal?_of_parseInt64 {text : String} {i : ℤ} (h : parseInt64 text = some i) :
    decimal? text = some (i : ℚ) := by
  unfold parseInt64 at h
  split at h <;> cases h
  rename_i hd
  have hall : ∀ c ∈ text.toList, c.isDigit = true := by
    have := hd.1
    simp only [isDigits, Bool.and_eq_true, all_eq_true] at this
    exact this.1
  have hdot : ∀ c ∈ text.toList, decide (c ≠ '.') = true := by
    intro c hc
    have := hall c hc
    by_cases he : c = '.'
    · subst he
      revert this
      decide
    · simp [he]
  have htake : text.toList.takeWhile (· ≠ '.') = text.toList := takeWhile_eq_self_iff.mpr hdot
  have hdrop : text.toList.dropWhile (· ≠ '.') = [] := dropWhile_eq_nil_iff.mpr hdot
  unfold decimal?
  rw [hdrop, htake]
  simp [hd.1]

/-- A numeral with a value has at most one point. -/
theorem decimal?_points {text : String} {q : ℚ} (h : decimal? text = some q) : text.toList.count '.' ≤ 1 := by
  have hint : (text.toList.takeWhile (· ≠ '.')).count '.' = 0 := by
    rw [count_eq_zero]
    intro hmem
    have := mem_takeWhile_imp hmem
    simp at this
  have hdigits : ∀ ds : List Char, isDigits ds = true → ds.count '.' = 0 := by
    intro ds hds
    simp only [isDigits, Bool.and_eq_true, all_eq_true] at hds
    rw [count_eq_zero]
    intro hmem
    exact absurd (hds.1 '.' hmem) (by decide)
  rw [← takeWhile_append_dropWhile (p := (· ≠ '.')) (l := text.toList), count_append, hint]
  unfold decimal? at h
  dsimp only at h
  split at h
  · rename_i hdrop
    rw [hdrop]
    simp
  rename_i c frac hdrop
  rw [hdrop]
  split at h
  · rename_i hok
    have hfrac : frac.count '.' = 0 := by
      have hsum := hdigits _ hok
      rw [count_append] at hsum
      omega
    rw [count_cons, hfrac]
    split <;> omega
  · cases h

end GoErp.Lib.Number
