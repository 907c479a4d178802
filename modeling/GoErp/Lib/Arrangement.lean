import Mathlib.Data.List.Sort
import Mathlib.Order.Lattice

/-!
# `Lib.Arrangement` — what sorting by a key may return

A sort that is not stable may return any permutation of its input that is in order (`Arrangement`): elements with equal
keys may stand in any order. An element can be made to come before the others of its key
(`exists_arrangement_split`), and two arrangements are equal where the key tells the elements apart
(`Arrangement.unique`).
-/

namespace GoErp.Lib

open List

variable {α β κ : Type} [LinearOrder κ]

/-- `s` is a result of sorting `l` by `key`. -/
def Arrangement (key : α → κ) (l s : List α) : Prop := s.Perm l ∧ s.Pairwise fun a b => key a ≤ key b

instance [DecidableEq α] (key : α → κ) (l s : List α) : Decidable (Arrangement key l s) :=
  inferInstanceAs (Decidable (_ ∧ _))

/-- Stable sorting by a key. -/
def sortBy (key : α → κ) (l : List α) : List α := l.insertionSort fun a b => key a ≤ key b

theorem arrangement_sortBy (key : α → κ) (l : List α) : Arrangement key l (sortBy key l) := by
  have : Std.Total fun a b : α => key a ≤ key b := ⟨fun a b => le_total (key a) (key b)⟩
  have : IsTrans α fun a b => key a ≤ key b := ⟨fun _ _ _ => le_trans⟩
  exact ⟨perm_insertionSort _ l, pairwise_insertionSort _ l⟩

/-- A map that keeps the keys can be applied before sorting. -/
theorem sortBy_map {key : α → κ} {key' : β → κ} {f : α → β} (hf : ∀ a, key' (f a) = key a) (l : List α) :
    sortBy key' (l.map f) = (sortBy key l).map f := by
  apply Eq.symm
  apply map_insertionSort
  intro a _ b _
  rw [hf, hf]

namespace Arrangement

variable {key : α → κ} {l s t : List α}

theorem mem_iff (h : Arrangement key l s) {a : α} : a ∈ s ↔ a ∈ l := h.1.mem_iff

theorem filter (h : Arrangement key l s) (p : α → Bool) : Arrangement key (l.filter p) (s.filter p) :=
  ⟨h.1.filter p, h.2.filter p⟩

theorem of_perm (h : Arrangement key l s) (hp : l.Perm t) : Arrangement key t s := ⟨h.1.trans hp, h.2⟩

/-- A map that keeps the keys keeps arrangements. -/
theorem map {key' : β → κ} (h : Arrangement key l s) {f : α → β} (hf : ∀ a, key' (f a) = key a) :
    Arrangement key' (l.map f) (s.map f) := by
  refine ⟨h.1.map f, ?_⟩
  rw [pairwise_map]
  simpa only [hf] using h.2

/-- Distinct keys leave one arrangement. -/
theorem unique (hs : Arrangement key l s) (ht : Arrangement key l t)
    (hinj : ∀ a ∈ l, ∀ b ∈ l, key a = key b → a = b) : s = t := by
  apply (hs.1.trans ht.1.symm).eq_of_pairwise _ hs.2 ht.2
  intro a b ha hb hab hba
  exact hinj a (hs.mem_iff.mp ha) b (ht.mem_iff.mp hb) (le_antisymm hab hba)

end Arrangement

/-- An element can come before all others of its key. -/
theorem exists_arrangement_split [DecidableEq α] (key : α → κ) {l : List α} {a : α} (ha : a ∈ l) :
    ∃ pre post, Arrangement key l (pre ++ a :: post) ∧ ∀ x ∈ pre, key x < key a := by
  let below := sortBy key ((l.erase a).filter fun x => key x < key a)
  let above := sortBy key ((l.erase a).filter fun x => !decide (key x < key a))
  have hbelow : Arrangement key _ below := arrangement_sortBy key _
  have habove : Arrangement key _ above := arrangement_sortBy key _
  have hlt : ∀ x ∈ below, key x < key a := by
    intro x hx
    simpa using (mem_filter.mp (hbelow.mem_iff.mp hx)).2
  have hge : ∀ x ∈ above, key a ≤ key x := by
    intro x hx
    simpa using (mem_filter.mp (habove.mem_iff.mp hx)).2
  refine ⟨below, above, ⟨?_, ?_⟩, hlt⟩
  · calc below ++ a :: above
        _ |>.Perm (a :: (below ++ above)) := perm_middle
        _ |>.Perm (a :: l.erase a) :=
          ((hbelow.1.append habove.1).trans (filter_append_perm _ _)).cons a
        _ |>.Perm l := (perm_cons_erase ha).symm
  rw [pairwise_append, pairwise_cons]
  refine ⟨hbelow.2, ⟨hge, habove.2⟩, ?_⟩
  intro x hx y hy
  rcases mem_cons.mp hy with rfl | hy
  · exact (hlt x hx).le
  · exact (hlt x hx).le.trans (hge y hy)

/-- The first of the elements of greatest rank. -/
theorem exists_first_max (rank : α → Nat) {l : List α} (hne : l ≠ []) :
    ∃ pre b post, l = pre ++ b :: post ∧ (∀ x ∈ pre, rank x < rank b) ∧ ∀ y ∈ post, rank y ≤ rank b := by
  induction l with
  | nil => exact absurd rfl hne
  | cons a l ih =>
    by_cases hl : l = []
    · exact ⟨[], a, [], by rw [hl]; rfl, by simp, by simp⟩
    obtain ⟨pre, b, post, rfl, hpre, hpost⟩ := ih hl
    by_cases hab : rank a < rank b
    · refine ⟨a :: pre, b, post, rfl, ?_, hpost⟩
      intro x hx
      rcases mem_cons.mp hx with rfl | hx
      · exact hab
      · exact hpre x hx
    -- `a` beats everything behind it
    refine ⟨[], a, pre ++ b :: post, rfl, by simp, ?_⟩
    intro y hy
    rcases mem_append.mp hy with hy | hy
    · have := hpre y hy
      omega
    rcases mem_cons.mp hy with rfl | hy
    · omega
    · have := hpost y hy
      omega

end GoErp.Lib
