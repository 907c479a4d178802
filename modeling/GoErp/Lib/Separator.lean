import Mathlib.Data.List.Basic

/-!
# `Lib.Separator` — texts joined with a separator

A text `a ++ sep ++ b` is read back uniquely when some character of `sep` occurs neither before it in `sep` nor in
`a`. What a text is split into never holds the separator.
-/

namespace GoErp.Lib

open List

theorem append_cons_inj_of_notMem_left {α : Type} {c : α} {a a' b b' : List α} (ha : c ∉ a) (ha' : c ∉ a')
    (h : a ++ c :: b = a' ++ c :: b') : a = a' ∧ b = b' := by
  induction a generalizing a' with
  | nil =>
    cases a' with
    | nil => exact ⟨rfl, (List.cons.inj h).2⟩
    | cons x xs => exact absurd ((List.cons.inj h).1 ▸ mem_cons_self) ha'
  | cons x xs ih =>
    cases a' with
    | nil => exact absurd ((List.cons.inj h).1.symm ▸ mem_cons_self) ha
    | cons y ys =>
      obtain ⟨hxy, hrest⟩ := List.cons.inj h
      obtain ⟨hxs, hb⟩ := ih (fun hc => ha (mem_cons_of_mem _ hc))
        (fun hc => ha' (mem_cons_of_mem _ hc)) hrest
      exact ⟨by rw [hxy, hxs], hb⟩

/-- The same for texts, with a separator in which the character marks the place. -/
theorem join_inj {sep a a' b b' : String} (c : Char) (before after : List Char)
    (hsep : sep.toList = before ++ c :: after) (hbefore : c ∉ before) (ha : c ∉ a.toList) (ha' : c ∉ a'.toList)
    (h : a ++ sep ++ b = a' ++ sep ++ b') : a = a' ∧ b = b' := by
  have hl : (a.toList ++ before) ++ c :: (after ++ b.toList) = (a'.toList ++ before) ++ c :: (after ++ b'.toList) := by
    have := congrArg String.toList h
    simpa only [String.toList_append, hsep, append_assoc, cons_append] using this
  have hnot : ∀ {x : String}, c ∉ x.toList → c ∉ x.toList ++ before := fun hx hc =>
    (mem_append.mp hc).elim hx hbefore
  obtain ⟨haa, hbb⟩ := append_cons_inj_of_notMem_left (hnot ha) (hnot ha') hl
  exact ⟨String.toList_inj.mp (append_cancel_right haa), String.toList_inj.mp (append_cancel_left hbb)⟩

/-- No part of a split holds the separator. -/
theorem notMem_of_mem_splitOn {α : Type} [DecidableEq α] {c : α} {cs part : List α} (h : part ∈ cs.splitOn c) :
    c ∉ part := by
  rw [List.splitOn] at h
  induction cs generalizing part with
  | nil =>
    rw [splitOnP_nil, mem_singleton] at h
    rw [h]
    exact not_mem_nil
  | cons d cs ih =>
    rw [splitOnP_cons_eq_if_modifyHead] at h
    split at h
    · rcases mem_cons.mp h with rfl | h
      · exact not_mem_nil
      · exact ih h
    rename_i hd
    obtain ⟨first, rest, hsplit⟩ := exists_cons_of_ne_nil (splitOnP_ne_nil (· == c) cs)
    rw [hsplit] at h ih
    rcases mem_cons.mp h with rfl | h
    · rw [mem_cons, not_or]
      exact ⟨fun heq => hd (beq_iff_eq.mpr heq.symm), ih mem_cons_self⟩
    · exact ih (mem_cons_of_mem first h)

end GoErp.Lib
