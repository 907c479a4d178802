import Mathlib.Data.List.Infix

/-!
# `Lib.Slices` — slices of a heap

A slice is `nil` or refers to an array; growing it makes a new array, writing through it changes the array that it
refers to, and so every slice that shares it. A heap is the list of the arrays made so far, so that `h <+: h'` says
that no array of `h` has been written since. The rule for a routine is `Private`: a slice that refers to no array of
`h₀` can be grown and written, and `h₀` is still a prefix of the heap.
-/

namespace GoErp.Lib

open List

/-- The arrays that have been made, by address. -/
abbrev Heap (α : Type) := List (List α)

/-- `nil`, or the address of an array. -/
abbrev Slice := Option Nat

namespace Heap

variable {α : Type} {h h₀ h' : Heap α} {s : Slice}

/-- The elements of a slice. -/
def read (h : Heap α) : Slice → List α
  | none => []
  | some a => h.getD a []

/-- `make` and `copy`: a new array with the given elements. -/
def alloc (h : Heap α) (xs : List α) : Heap α × Slice := (h ++ [xs], some h.length)

/-- The elements of a slice overwritten, in place. -/
def write (h : Heap α) (f : List α → List α) : Slice → Heap α
  | none => h
  | some a => h.modify a f

/-- The array of the slice has been made. -/
def Live (h : Heap α) (s : Slice) : Prop := ∀ a, s = some a → a < h.length

/-- The heap extends `h₀`, and the slice refers to no array of `h₀`. -/
def Private (h₀ h : Heap α) (s : Slice) : Prop := h₀ <+: h ∧ ∀ a, s = some a → h₀.length ≤ a

theorem Private.nil (h : Heap α) : Private h h none := ⟨prefix_rfl, nofun⟩

theorem Live.mono (hs : Live h s) (hext : h <+: h') : Live h' s :=
  fun a ha => Nat.lt_of_lt_of_le (hs a ha) hext.length_le

/-- What is read of an array does not change while the heap is only extended. -/
theorem read_of_prefix (hext : h <+: h') (hs : Live h s) : read h' s = read h s := by
  obtain ⟨more, rfl⟩ := hext
  cases s with
  | none => rfl
  | some a => rw [read, read, getD_eq_getElem?_getD, getD_eq_getElem?_getD, getElem?_append_left (hs a rfl)]

theorem live_alloc (h : Heap α) (xs : List α) : Live (alloc h xs).1 (alloc h xs).2 := by
  rintro a ⟨⟩
  simp [alloc]

@[simp] theorem read_alloc (h : Heap α) (xs : List α) : read (alloc h xs).1 (alloc h xs).2 = xs := by
  simp [alloc, read]

theorem Private.alloc (hp : Private h₀ h s) (xs : List α) : Private h₀ (Heap.alloc h xs).1 (Heap.alloc h xs).2 := by
  refine ⟨hp.1.trans (prefix_append h [xs]), ?_⟩
  rintro a ⟨⟩
  exact hp.1.length_le

theorem Live.write (hs : Live h s) (f : List α → List α) (s' : Slice) : Live (write h f s') s := by
  cases s' with
  | none => exact hs
  | some a => exact fun b hb => (length_modify f h a).symm ▸ hs b hb

/-- Writing through a slice: an empty one has nothing to write. -/
theorem read_write (hs : Live h s) {f : List α → List α} (hf : f [] = []) : read (write h f s) s = f (read h s) := by
  cases s with
  | none => exact hf.symm
  | some a => simp [write, read, hs a rfl]

theorem Private.write (hp : Private h₀ h s) (f : List α → List α) : Private h₀ (Heap.write h f s) s := by
  refine ⟨?_, hp.2⟩
  cases s with
  | none => exact hp.1
  | some a =>
    refine prefix_iff_getElem?.mpr fun i hi => ?_
    have hne : a ≠ i := Nat.ne_of_gt (Nat.lt_of_lt_of_le hi (hp.2 a rfl))
    rw [Heap.write, getElem?_modify, prefix_iff_getElem?.mp hp.1 i hi]
    simp [hne]

end Heap

end GoErp.Lib
