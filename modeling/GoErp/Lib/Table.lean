import Mathlib.Data.List.Nodup

/-!
# `Lib.Table` — tables by primary key

A finite table of rows with distinct keys: reading a row, inserting one under a new key, updating every row by a
function of its key, and removing the rows that meet a condition. Each operation comes with the equation for
`get?` after it, which is all that proofs about tables use.
-/

namespace GoErp.Lib

open List

/-- Rows under distinct keys. -/
structure Table (κ ν : Type) where
  rows : List (κ × ν)
  nodup : (rows.map Prod.fst).Nodup

namespace Table

variable {κ ν : Type} [DecidableEq κ]

def empty : Table κ ν := ⟨[], nodup_nil⟩

/-- The row under a key. -/
def get? (t : Table κ ν) (k : κ) : Option ν := (t.rows.find? fun x => x.1 = k).map Prod.snd

/-- Every row replaced by a function of its key and itself. -/
def update (t : Table κ ν) (f : κ → ν → ν) : Table κ ν where
  rows := t.rows.map fun x => (x.1, f x.1 x.2)
  nodup := by
    rw [List.map_map]
    exact t.nodup

/-- The rows that meet a condition. -/
def filter (t : Table κ ν) (p : κ → ν → Bool) : Table κ ν where
  rows := t.rows.filter fun x => p x.1 x.2
  nodup := t.nodup.sublist (List.Sublist.map Prod.fst filter_sublist)

/-- The table with a row under a key, in place of the one that was there. -/
def insert (t : Table κ ν) (k : κ) (v : ν) : Table κ ν where
  rows := (k, v) :: (t.filter fun k' _ => k' ≠ k).rows
  nodup := by
    rw [map_cons, nodup_cons]
    refine ⟨?_, (t.filter fun k' _ => k' ≠ k).nodup⟩
    intro hk
    obtain ⟨x, hx, hxk⟩ := mem_map.mp hk
    have hne := (mem_filter.mp hx).2
    simp [hxk] at hne

/-- The table without the row under a key. -/
def erase (t : Table κ ν) (k : κ) : Table κ ν := t.filter fun k' _ => k' ≠ k

/-- The rows are what is read under the keys. -/
theorem mem_rows {t : Table κ ν} {k : κ} {v : ν} : (k, v) ∈ t.rows ↔ t.get? k = some v := by
  unfold get?
  constructor
  · intro h
    have hfind : t.rows.find? (fun x => x.1 = k) = some (k, v) := by
      cases hf : t.rows.find? fun x => x.1 = k with
      | none => exact absurd (find?_eq_none.mp hf _ h) (by simp)
      | some x =>
        have hx := mem_of_find?_eq_some hf
        have hk : x.1 = k := by simpa using find?_some hf
        -- the keys are distinct, so the entry found is the one given
        rw [inj_on_of_nodup_map t.nodup hx h hk]
    rw [hfind]
    rfl
  · intro h
    obtain ⟨x, hx, rfl⟩ := Option.map_eq_some_iff.mp h
    have hk : x.1 = k := by simpa using find?_some hx
    exact hk ▸ mem_of_find?_eq_some hx

variable (t : Table κ ν) (k : κ)

@[simp] theorem get?_empty : (empty : Table κ ν).get? k = none := rfl

@[simp] theorem get?_update (f : κ → ν → ν) (k : κ) : (t.update f).get? k = (t.get? k).map (f k) := by
  refine Option.ext fun v => ?_
  rw [← Option.mem_def, Option.mem_def, ← mem_rows, Option.map_eq_some_iff]
  simp only [update, mem_map, Prod.mk.injEq]
  constructor
  · rintro ⟨x, hx, rfl, rfl⟩
    exact ⟨x.2, mem_rows.mp hx, rfl⟩
  · rintro ⟨w, hw, rfl⟩
    exact ⟨(k, w), mem_rows.mpr hw, rfl, rfl⟩

theorem get?_filter (p : κ → ν → Bool) (k : κ) : (t.filter p).get? k = (t.get? k).filter (p k) := by
  refine Option.ext fun v => ?_
  rw [← mem_rows, Option.filter_eq_some_iff, ← mem_rows]
  exact mem_filter

/-- Reading after an insertion. -/
theorem get?_insert (k k' : κ) (v : ν) : (t.insert k v).get? k' = if k' = k then some v else t.get? k' := by
  refine Option.ext fun w => ?_
  rw [← mem_rows]
  by_cases hk : k' = k
  · subst hk
    rw [if_pos rfl]
    simp [insert, filter, eq_comm]
  · rw [if_neg hk, ← mem_rows]
    simp [insert, filter, hk]

@[simp] theorem get?_insert_self (v : ν) : (t.insert k v).get? k = some v := by
  rw [get?_insert, if_pos rfl]

/-- Some row meets a condition. -/
def any (t : Table κ ν) (p : κ → ν → Bool) : Bool := t.rows.any fun x => p x.1 x.2

/-- A condition that some row meets. -/
theorem any_eq_true {t : Table κ ν} {p : κ → ν → Bool} : t.any p = true ↔ ∃ k v, t.get? k = some v ∧ p k v = true := by
  unfold any
  rw [List.any_eq_true]
  constructor
  · rintro ⟨x, hx, hp⟩
    exact ⟨x.1, x.2, mem_rows.mp hx, hp⟩
  · rintro ⟨k, v, hv, hp⟩
    exact ⟨(k, v), mem_rows.mpr hv, hp⟩

end Table

end GoErp.Lib
