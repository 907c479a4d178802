import Mathlib.Algebra.Ring.Nat
import Mathlib.Data.List.Basic

/-!
# `Lib.Assoc` — association lists as maps

For maps inside inductive types, where `Lib.Table` with its proof of distinct keys cannot stand. `put` replaces the
entry of its key.
-/

namespace GoErp.Lib.Assoc

open List

variable {κ ν : Type} [DecidableEq κ]

/-- The value of the first entry with the key. -/
def get? (m : List (κ × ν)) (k : κ) : Option ν := (m.find? fun x => x.1 = k).map Prod.snd

/-- The entry in place of every entry with its key. -/
def put (m : List (κ × ν)) (k : κ) (v : ν) : List (κ × ν) := (k, v) :: m.filter fun x => x.1 ≠ k

@[simp] theorem get?_nil (k : κ) : get? ([] : List (κ × ν)) k = none := rfl

theorem get?_cons (x : κ × ν) (m : List (κ × ν)) (k : κ) :
    get? (x :: m) k = if x.1 = k then some x.2 else get? m k := by
  unfold get?
  by_cases h : x.1 = k
  · rw [find?_cons_of_pos (by simpa using h), if_pos h]
    rfl
  · rw [find?_cons_of_neg (by simpa using h), if_neg h]

variable {k : κ}

theorem get?_filter_ne (m : List (κ × ν)) {k' : κ} (h : k' ≠ k) : get? (m.filter fun x => x.1 ≠ k) k' = get? m k' := by
  induction m with
  | nil => rfl
  | cons x m ih =>
    by_cases hx : x.1 = k
    · have hk' : x.1 ≠ k' := fun heq => h (heq.symm.trans hx)
      rw [filter_cons_of_neg (by simpa using hx), ih, get?_cons, if_neg hk']
    · rw [filter_cons_of_pos (by simpa using hx), get?_cons, get?_cons, ih]

/-- Reading after a write: the written value under its key, and what was there under every other. -/
theorem get?_put (m : List (κ × ν)) (k k' : κ) (v : ν) :
    get? (put m k v) k' = if k' = k then some v else get? m k' := by
  rw [put, get?_cons]
  by_cases h : k' = k
  · rw [if_pos h.symm, if_pos h]
  · rw [if_neg (Ne.symm h), if_neg h, get?_filter_ne m h]

variable {m : List (κ × ν)}

/-- With distinct keys every entry is the one that is read. -/
theorem get?_of_mem (hnodup : (m.map Prod.fst).Nodup) {v : ν} (h : (k, v) ∈ m) : get? m k = some v := by
  induction m with
  | nil => cases h
  | cons x m ih =>
    rw [map_cons, nodup_cons] at hnodup
    rw [get?_cons]
    rcases mem_cons.mp h with rfl | h
    · exact if_pos rfl
    have hne : x.1 ≠ k := fun heq => hnodup.1 (mem_map.mpr ⟨(k, v), h, heq.symm⟩)
    rw [if_neg hne]
    exact ih hnodup.2 h

/-- Writing keeps the keys distinct. -/
theorem nodup_put (h : (m.map Prod.fst).Nodup) (k : κ) (v : ν) : ((put m k v).map Prod.fst).Nodup := by
  rw [put, map_cons, nodup_cons]
  refine ⟨?_, h.sublist (filter_sublist.map _)⟩
  intro hk
  obtain ⟨x, hx, heq⟩ := mem_map.mp hk
  have hne : x.1 ≠ k := by simpa using (mem_filter.mp hx).2
  exact hne heq

theorem isSome_get?_of_mem {x : κ × ν} (h : x ∈ m) : (get? m x.1).isSome := by
  rw [get?, Option.isSome_map, find?_isSome]
  exact ⟨x, h, by simp⟩

theorem get?_filter_self (m : List (κ × ν)) (k : κ) : get? (m.filter fun x => x.1 ≠ k) k = none := by
  rw [get?, Option.map_eq_none_iff, find?_eq_none]
  intro x hx
  simpa using (mem_filter.mp hx).2

/-- The map with a function applied to every value. -/
def mapValues {μ : Type} (f : ν → μ) (m : List (κ × ν)) : List (κ × μ) := m.map fun x => (x.1, f x.2)

/-- Reading commutes with a function of the values. -/
theorem get?_mapValues {μ : Type} (f : ν → μ) (m : List (κ × ν)) (k : κ) :
    get? (mapValues f m) k = (get? m k).map f := by
  induction m with
  | nil => rfl
  | cons x m ih =>
    show get? ((x.1, f x.2) :: mapValues f m) k = _
    rw [get?_cons, get?_cons, ih]
    split <;> rfl

theorem put_mapValues {μ : Type} (f : ν → μ) (m : List (κ × ν)) (k : κ) (v : ν) :
    put (mapValues f m) k (f v) = mapValues f (put m k v) := by
  rw [put, put, mapValues, mapValues, filter_map]
  rfl

/-- A key longer than all keys is not in the map. -/
theorem get?_eq_none_of_lt (size : κ → Nat) (h : (m.map fun x => size x.1).sum < size k) : get? m k = none := by
  induction m with
  | nil => rfl
  | cons x m ih =>
    rw [map_cons, sum_cons] at h
    have hne : x.1 ≠ k := by
      rintro rfl
      omega
    rw [get?_cons, if_neg hne]
    exact ih (by omega)

end GoErp.Lib.Assoc
