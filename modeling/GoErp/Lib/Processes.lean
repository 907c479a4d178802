import Mathlib.Algebra.Ring.Nat
import Mathlib.Data.List.Basic

/-!
# `Lib.Processes` — processes kept in a list

A system with any number of processes keeps their states in a list; a step replaces one of them. Counting the
processes that meet a condition changes by what the replaced and the new state contribute. `CommitResult` is what a
process can see of its commit.
-/

namespace GoErp.Lib.Processes

open List

/-- How a commit ends: an error may come after the server has committed. -/
inductive CommitResult where
  | ok
  | lost
  | rolledBack
deriving DecidableEq, Repr

variable {α : Type} {ps : List α} {i : Nat} {a : α}

/-- A process other than the one that moves stays. -/
theorem mem_set_of_ne {b q : α} (hi : ps[i]? = some a) (hne : q ≠ a) (hq : q ∈ ps) : q ∈ ps.set i b := by
  obtain ⟨j, hj⟩ := mem_iff_getElem?.mp hq
  have hij : i ≠ j := by
    rintro rfl
    rw [hi] at hj
    exact hne (Option.some.inj hj).symm
  exact mem_iff_getElem?.mpr ⟨j, by rw [getElem?_set_ne hij, hj]⟩

/-- The process that moves is there in its new state. -/
theorem mem_set_self (b : α) (hi : ps[i]? = some a) : b ∈ ps.set i b := by
  obtain ⟨hlt, -⟩ := List.getElem?_eq_some_iff.mp hi
  exact mem_set hlt b

/-- A count, after one process has moved. -/
theorem countP_set (p : α → Bool) (b : α) (hi : ps[i]? = some a) :
    (ps.set i b).countP p + (p a).toNat = ps.countP p + (p b).toNat := by
  induction ps generalizing i with
  | nil => cases hi
  | cons x ps ih =>
    cases i with
    | zero =>
      cases hi
      rw [set_cons_zero, countP_cons, countP_cons]
      cases p a <;> cases p b <;> simp
    | succ i =>
      have hrest := ih (i := i) (by simpa using hi)
      rw [set_cons_succ, countP_cons, countP_cons]
      omega

/-- A sum, after one process has moved. -/
theorem sum_map_set (f : α → Nat) (b : α) (hi : ps[i]? = some a) :
    ((ps.set i b).map f).sum + f a = (ps.map f).sum + f b := by
  induction ps generalizing i with
  | nil => cases hi
  | cons x ps ih =>
    cases i with
    | zero =>
      cases hi
      simp only [set_cons_zero, map_cons, sum_cons]
      omega
    | succ i =>
      have hrest := ih (i := i) (by simpa using hi)
      simp only [set_cons_succ, map_cons, sum_cons]
      omega

/-- A count, after a process has come. -/
theorem countP_append_singleton (ps : List α) (p : α → Bool) (b : α) :
    (ps ++ [b]).countP p = ps.countP p + (p b).toNat := by
  rw [countP_append]
  cases h : p b <;> simp [h]

end GoErp.Lib.Processes
