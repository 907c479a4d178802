import Mathlib.Data.List.Nodup

/-!
# `Lib.Paging` — a list read page by page

Each page begins after the last element of the one before (`WHERE key > $last ORDER BY key LIMIT n`). As long as the
list stays the same and has no element twice, the pages follow each other without gap or overlap.
-/

namespace GoErp.Lib.Paging

open List

variable {α : Type} [DecidableEq α]

/-- What comes after an element; all of it if none is given. -/
def rest (after : Option α) (l : List α) : List α :=
  match after with
  | none => l
  | some a => (l.dropWhile (· ≠ a)).tail

def page (size : Nat) (after : Option α) (l : List α) : List α := (rest after l).take size

theorem rest_suffix (after : Option α) (l : List α) : rest after l <:+ l := by
  cases after with
  | none => exact suffix_refl l
  | some a => exact (tail_suffix _).trans (dropWhile_suffix _)

variable {a : α} {l : List α}

theorem dropWhile_ne_append {r : List α} (h : a ∉ l) : (l ++ a :: r).dropWhile (· ≠ a) = a :: r := by
  induction l with
  | nil => simp
  | cons x l ih =>
    have hx : x ≠ a := fun hxa => h (hxa ▸ mem_cons_self)
    rw [cons_append, dropWhile_cons_of_pos (by simpa using hx)]
    exact ih fun hl => h (mem_cons_of_mem x hl)

variable {after : Option α} {size : Nat}

/-- The next page begins where this one ends. -/
theorem rest_getLast (hl : l.Nodup)
    (h : (page size after l).getLast? = some a) : rest (some a) l = (rest after l).drop size := by
  obtain ⟨front, hfront⟩ := rest_suffix after l
  obtain ⟨init, hinit⟩ := getLast?_eq_some_iff.mp h
  -- the list around the last element of the page
  have hsplit : l = (front ++ init) ++ a :: (rest after l).drop size := by
    calc l = front ++ rest after l := hfront.symm
      _ = front ++ (page size after l ++ (rest after l).drop size) := by
          rw [page, take_append_drop]
      _ = (front ++ init) ++ a :: (rest after l).drop size := by
          rw [hinit]
          simp
  have hnot : a ∉ front ++ init := by
    intro ha
    rw [hsplit] at hl
    exact (nodup_append.mp hl).2.2 a ha a mem_cons_self rfl
  show (l.dropWhile (· ≠ a)).tail = _
  conv_lhs => rw [hsplit]
  rw [dropWhile_ne_append hnot]
  rfl

/-- A page that is not full is the last one. -/
theorem rest_eq_page (h : (page size after l).length < size) : rest after l = page size after l := by
  rw [page, length_take] at h
  rw [page, take_of_length_le]
  omega

/-- A full page leaves less. -/
theorem length_drop_lt (hsize : 0 < size)
    (h : ¬ (page size after l).length < size) : ((rest after l).drop size).length < (rest after l).length := by
  rw [page, length_take] at h
  rw [length_drop]
  omega

end GoErp.Lib.Paging
