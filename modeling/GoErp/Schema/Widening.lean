import Mathlib.Algebra.Order.Field.Rat
import Mathlib.Data.Rat.Floor
import GoErp.Orm.Model
import GoErp.Schema.Acceptance

/-!
# `Schema.Widening` — type changes that are applied without asking

`toAtlasColumn` (`schema/atlas.go`) makes the column of a declared field, and `isWideningTypeChange`
(`schema/classify.go`) decides which changes between two such types are applied at once. `ColType.Holds` is what
Postgres stores in a column: a size or a precision of zero is an unbounded column.

The comparison of precisions takes the unconstrained `numeric` for the smallest of its kind; all other pairs that pass
keep every value (`widening_sound_iff`).
-/

namespace GoErp.Schema

open Lib
open Orm (FieldKind)

/-! ## Columns of fields -/

/-- The part of `model.FieldDef` that a column is made of. -/
structure FieldDef where
  kind : FieldKind
  length : Nat := 0
  precision : Nat := 0
  scale : Nat := 0
  enumType : String := ""
  isRequired : Bool := false
  isPrimaryKey : Bool := false
  defaultExpr : Option String := none

inductive ColumnError where
  /-- `Many2One field %q must be named with an _id suffix` -/
  | idSuffix (name : String)
  /-- `field %q references undeclared enum type %q (not present in Schema.Types)` -/
  | undeclaredEnum (name enumType : String)
  /-- `unknown field kind %d` -/
  | unknownKind (kind : FieldKind)

/-- The type of a field's column; relations to many records have none. -/
def columnType (name : String) (f : FieldDef) (enumTypes : List String) : Except ColumnError ColType :=
  match f.kind with
  | .char => .ok (if 0 < f.length then .string "varchar" f.length else .string "text" 0)
  | .text | .sequence | .selection => .ok (.string "text" 0)
  | .integer => .ok (.integer "integer")
  | .bigInt => .ok (.integer "bigint")
  | .float => .ok (.other "double precision")
  | .decimal => .ok (.decimal f.precision f.scale)
  | .boolean => .ok (.other "boolean")
  | .uuid | .file | .many2One | .delegate | .dynamicLink => .ok (.other "uuid")
  | .timestampTZ => .ok (.other "timestamptz")
  | .date => .ok (.other "date")
  | .time => .ok (.other "time")
  | .jsonb => .ok (.other "jsonb")
  | .bytea => .ok (.other "bytea")
  | .enum => if f.enumType ∈ enumTypes then .ok (.other f.enumType) else .error (.undeclaredEnum name f.enumType)
  | .one2Many | .many2Many | .fileMulti => .error (.unknownKind f.kind)

def toAtlasColumn (name : String) (f : FieldDef) (enumTypes : List String) : Except ColumnError Column :=
  if (f.kind = .many2One ∨ f.kind = .delegate) ∧ "_id".toList.isSuffixOf name.toList = false then
    .error (.idSuffix name)
  else do
    let type ← columnType name f enumTypes
    .ok ⟨name, ⟨"", type, !f.isRequired && !f.isPrimaryKey⟩, f.defaultExpr, none⟩

/-! ## Values of columns -/

inductive Value where
  | text (s : String)
  | int (i : ℤ)
  | numeric (q : ℚ)
  | nan
  | infinity (negative : Bool)
  /-- a value of one of the types that are never widened -/
  | other (t : String)

/-- Half the number of values of an integer type. -/
def intBound (t : String) : ℤ := 2 ^ (16 * 2 ^ (integerRank t).toNat - 1)

/-- The values of a type, `NULL` aside. `numeric` without a scale is unconstrained; a scale without a precision is no
type. -/
def ColType.Holds : ColType → Value → Prop
  | .string t size, .text s => t = "text" ∨ size = 0 ∨ s.length ≤ size
  | .integer t, .int i => 0 ≤ integerRank t ∧ -intBound t ≤ i ∧ i < intBound t
  | .decimal p s, .numeric q => p = 0 ∧ s = 0 ∨ p ≠ 0 ∧ ∃ k : ℤ, |k| < 10 ^ p ∧ q = k / 10 ^ s
  | .decimal p s, .nan => p = 0 → s = 0
  | .decimal p s, .infinity _ => p = 0 ∧ s = 0
  | .other t, .other t' => t = t'
  | _, _ => False

/-! ## Soundness -/

theorem string_of_toAtlasColumn {name t : String} {f : FieldDef} {enumTypes : List String} {c : Column} {size : Nat}
    (h : toAtlasColumn name f enumTypes = .ok c) (ht : c.type.type = .string t size) : t = "text" ∨ size ≠ 0 := by
  unfold toAtlasColumn at h
  split at h
  · cases h
  obtain ⟨type, htype, h⟩ := bind_eq_ok.mp h
  cases h
  obtain rfl : type = .string t size := ht
  unfold columnType at htype
  split at htype <;> try cases htype
  · split at htype
    · rename_i hlen
      cases htype
      exact .inr hlen.ne'
    · cases htype
      exact .inl rfl
  all_goals first | exact .inl rfl | (split at htype <;> cases htype)

theorem intBound_le {t t' : String} (h : integerRank t ≤ integerRank t') : intBound t ≤ intBound t' := by
  have hrank := Int.toNat_le_toNat h
  have hbits : 16 * 2 ^ (integerRank t).toNat ≤ 16 * 2 ^ (integerRank t').toNat :=
    Nat.mul_le_mul_left 16 (Nat.pow_le_pow_right (by decide) hrank)
  exact pow_le_pow_right₀ (by decide) (Nat.sub_le_sub_right hbits 1)

/-- More digits before the point. -/
theorem holds_decimal {p p' s : Nat} (hp : p ≠ 0 ∨ s ≠ 0) (hle : p ≤ p') {v : Value}
    (h : (ColType.decimal p s).Holds v) :
    (ColType.decimal p' s).Holds v := by
  cases v with
  | numeric q =>
    rcases h with ⟨h0, hs⟩ | ⟨h0, k, hk, hq⟩
    · exact (hp.elim (fun h => h h0) fun h => h hs).elim
    · refine .inr ⟨by omega, k, hk.trans_le ?_, hq⟩
      exact pow_le_pow_right₀ (by decide) hle
  | nan =>
    intro hp'
    exact h (by omega)
  | infinity _ => exact (hp.elim (fun hne => hne h.1) fun hne => hne h.2).elim
  | _ => exact h.elim

theorem widening_of_safe {source target : Column} {change : ChangeKind} (htype : change.type = true)
    (hsafe : isSafeModifyColumn source target change = true) :
    isWideningTypeChange source.type.type target.type.type = true := by
  unfold isSafeModifyColumn at hsafe
  split at hsafe
  · cases hsafe
  split at hsafe
  · cases hsafe
  split at hsafe
  · cases hsafe
  · rename_i hwide
    simpa [htype] using hwide

/-- **A type change that is applied at once keeps every value, unless it constrains an unconstrained `numeric`.** -/
theorem widening_sound_iff (source target : Column) (change : ChangeKind)
    (hsource : ∃ name f enumTypes, toAtlasColumn name f enumTypes = .ok source) (htype : change.type = true)
    (hsafe : isSafeModifyColumn source target change = true) :
    (∀ v, source.type.type.Holds v → target.type.type.Holds v) ↔
      ¬ (source.type.type = .decimal 0 0 ∧ target.type.type ≠ .decimal 0 0) := by
  have hwide := widening_of_safe htype hsafe
  obtain ⟨name, f, enumTypes, hcolumn⟩ := hsource
  have hstring : ∀ t size, source.type.type = .string t size → t = "text" ∨ size ≠ 0 := fun _ _ ht =>
    string_of_toAtlasColumn hcolumn ht
  generalize source.type.type = a at *
  generalize target.type.type = b at *
  unfold isWideningTypeChange at hwide
  split at hwide
  · simp only [Bool.or_eq_true, Bool.and_eq_true, decide_eq_true_eq] at hwide
    refine iff_of_true (fun v hv => ?_) (by simp)
    cases v with
    | text s =>
      rcases hwide with htext | ⟨rfl, hle⟩
      · exact .inl htext
      rcases hstring _ _ rfl with htext | hsize
      · exact .inl htext
      · exact hv.imp_right fun h => .inr ((h.resolve_left hsize).trans hle)
    | _ => exact hv.elim
  · simp only [Bool.and_eq_true, decide_eq_true_eq] at hwide
    refine iff_of_true (fun v hv => ?_) (by simp)
    cases v with
    | int i =>
      have hbound := intBound_le hwide.2
      exact ⟨hwide.1.trans hwide.2, (neg_le_neg hbound).trans hv.2.1, hv.2.2.trans_le hbound⟩
    | _ => exact hv.elim
  · rename_i p s p' s'
    simp only [Bool.and_eq_true, decide_eq_true_eq] at hwide
    obtain ⟨rfl, hle⟩ := hwide
    by_cases hzero : p = 0 ∧ s' = 0
    · -- an unconstrained column has infinities, which no constrained one has
      obtain ⟨rfl, rfl⟩ := hzero
      constructor
      · rintro h ⟨-, hne⟩
        exact hne (by rw [(h (.infinity false) ⟨rfl, rfl⟩).1])
      intro h v hv
      rw [not_not.mp fun hne => h ⟨rfl, hne⟩]
      exact hv
    · refine iff_of_true (fun v hv => holds_decimal ?_ hle hv) fun h => hzero (by simpa using h.1)
      exact not_and_or.mp hzero
  · cases hwide

/-- A code of twenty characters gets forty. -/
theorem widening_sound_code : ∃ source target : Column,
    toAtlasColumn "code" { kind := .char, length := 20 } [] = .ok source ∧
    toAtlasColumn "code" { kind := .char, length := 40 } [] = .ok target ∧
    ∀ v, source.type.type.Holds v → target.type.type.Holds v := by
  refine ⟨_, _, rfl, rfl, ?_⟩
  exact (widening_sound_iff _ _ ⟨true, false, false, false⟩ ⟨"code", { kind := .char, length := 20 }, [], rfl⟩ rfl
    (by decide)).mpr (by decide)

/-- A decimal without a precision gets one of ten digits. -/
theorem widening_rounds : ¬ ∀ (source target : Column) (change : ChangeKind),
    (∃ name f enumTypes, toAtlasColumn name f enumTypes = .ok source) →
    (∃ name f enumTypes, toAtlasColumn name f enumTypes = .ok target) → change.type = true →
    isSafeModifyColumn source target change = true → ∀ v, source.type.type.Holds v → target.type.type.Holds v := by
  intro h
  have hholds := h ⟨"amount", ⟨"", .decimal 0 0, true⟩, none, none⟩ ⟨"amount", ⟨"", .decimal 10 0, true⟩, none, none⟩
    ⟨true, false, false, false⟩ ⟨"amount", { kind := .decimal }, [], rfl⟩
    ⟨"amount", { kind := .decimal, precision := 10 }, [], rfl⟩ rfl (by decide) (.numeric (1 / 2)) (.inl ⟨rfl, rfl⟩)
  rcases hholds with ⟨hp, -⟩ | ⟨-, k, -, hk⟩
  · cases hp
  -- one half is no integer
  have hdouble : ((2 * k : ℤ) : ℚ) = (1 : ℤ) := by
    rw [pow_zero, div_one] at hk
    push_cast
    rw [← hk]
    norm_num
  have hodd := Int.cast_injective hdouble
  omega

end GoErp.Schema
