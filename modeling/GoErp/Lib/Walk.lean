import Mathlib.Data.List.Sort

/-!
# `Lib.Walk` — a plan computed once, and the walk that recomputes it

Items stand in the order of their bounds. From a mark, a walk takes the first item that applies there and moves the
mark to its bound, until no item applies. The plan at a mark is the list of all items that apply at it. The two agree
exactly if the planned items are `Successive`: each of them still applies at the bound of the one before it, and no
item from outside the plan gets in between.
-/

namespace GoErp.Lib

open List

section

variable {α : Type*} {r : α → α → Prop} [DecidableRel r] [IsTrans α r]

theorem filter_orderedInsert (p : α → Bool) (a : α) {l : List α} (hl : l.Pairwise r) :
    (l.orderedInsert r a).filter p = if p a then (l.filter p).orderedInsert r a else l.filter p := by
  induction l with
  | nil => by_cases ha : p a <;> simp [ha]
  | cons b l ih =>
    obtain ⟨hb, hl⟩ := pairwise_cons.mp hl
    rw [orderedInsert_cons]
    by_cases hab : r a b
    · -- what is kept of the rest stands above `b`, so above `a`: the item goes to its front as well
      rw [if_pos hab, filter_cons]
      by_cases ha : p a
      · have hfront : ((b :: l).filter p).orderedInsert r a = a :: (b :: l).filter p := by
          cases hfilter : (b :: l).filter p with
          | nil => rfl
          | cons c cs =>
            have hc : c ∈ b :: l := (mem_filter.mp (hfilter ▸ mem_cons_self)).1
            have hac : r a c := (mem_cons.mp hc).elim (fun h => h ▸ hab) fun h => IsTrans.trans a b c hab (hb c h)
            rw [orderedInsert_cons, if_pos hac]
        rw [if_pos ha, if_pos ha, hfront]
      · rw [if_neg ha, if_neg ha]
    · rw [if_neg hab, filter_cons, ih hl, filter_cons]
      by_cases ha : p a <;> by_cases hpb : p b <;> simp [ha, hpb, hab]

/-- A stable sort commutes with leaving items out. -/
theorem filter_insertionSort [Std.Total r] (p : α → Bool) (l : List α) :
    (l.insertionSort r).filter p = (l.filter p).insertionSort r := by
  induction l with
  | nil => rfl
  | cons a l ih =>
    rw [insertionSort_cons, filter_orderedInsert p a (pairwise_insertionSort r l), ih, filter_cons]
    by_cases ha : p a <;> simp [ha]

end

section

variable {α β : Type*} (applies : α → β → Bool) (bound : α → β) (items : List α)

/-- The items taken from a mark on, one by one; where they end, none applies. -/
def Walk : β → List α → Prop
  | v, [] => items.find? (applies · v) = none
  | v, a :: as => items.find? (applies · v) = some a ∧ Walk (bound a) as

/-- At the bound of each planned item the next one applies, and an item from outside the plan only if it stands
    after the next one. -/
def Successive (plan : List α) : Prop :=
  ∀ c rest, c :: rest <:+ plan →
    (∀ d ∈ rest.head?, applies d (bound c) = true) ∧
    ∀ e ∈ items, e ∉ plan → applies e (bound c) = true → ∃ d ∈ rest.head?, [d, e] <+ items

variable {applies bound items}

theorem Walk.subset {v : β} {as : List α} (h : Walk applies bound items v as) : as ⊆ items := by
  induction as generalizing v with
  | nil => exact nil_subset _
  | cons a as ih => exact cons_subset.mpr ⟨mem_of_find?_eq_some h.1, ih h.2⟩

/-- A walk from the bound of an item goes from rest to rest of the plan. -/
theorem walk_iff_find? (c : α) (plan : List α) :
    Walk applies bound items (bound c) plan ↔
      ∀ d rest, d :: rest <:+ c :: plan → items.find? (applies · (bound d)) = rest.head? := by
  induction plan generalizing c with
  | nil =>
    constructor
    · intro h d rest hsuffix
      obtain ⟨rfl, rfl⟩ : d = c ∧ rest = [] := by
        simpa [suffix_cons_iff] using hsuffix
      exact h
    · intro h
      exact h c [] (suffix_refl _)
  | cons a as ih =>
    rw [Walk, ih a]
    constructor
    · rintro ⟨hfirst, hrest⟩ d rest hsuffix
      rcases suffix_cons_iff.mp hsuffix with heq | hsuffix
      · cases heq
        exact hfirst
      · exact hrest d rest hsuffix
    · intro h
      exact ⟨h c (a :: as) (suffix_refl _), fun d rest hsuffix => h d rest (hsuffix.trans (suffix_cons c _))⟩

/-- An item that applies does not stand before the first one that does. -/
theorem not_pair_sublist_of_first {q : α → Bool} {as bs : List α} {d e : α} (hnodup : items.Nodup)
    (hitems : items = as ++ e :: bs) (has : ∀ a ∈ as, (!q a) = true) (hd : q d = true) (hne : d ≠ e) :
    ¬ [d, e] <+ items := by
  subst hitems
  intro hpair
  obtain ⟨l, l', heq, hl, hl'⟩ := sublist_append_iff.mp hpair
  cases l with
  | nil =>
    cases heq
    have hbs : [d, e] <+ bs := by simpa [cons_sublist_cons', hne] using hl'
    exact (nodup_cons.mp (nodup_append.mp hnodup).2.1).1 (hbs.subset (by simp))
  | cons x l =>
    obtain ⟨rfl, -⟩ := cons.inj heq
    simpa [hd] using has d (hl.subset mem_cons_self)

variable {le : β → β → Prop} (hbelow : ∀ a ∈ items, ∀ v, applies a v = true → ¬ le (bound a) v)
  (hsorted : items.Pairwise fun a b => le (bound a) (bound b)) (hrefl : ∀ v, le v v) (hnodup : items.Nodup)
include hbelow hsorted hrefl hnodup

/-- What the first applicable item at a planned bound has to satisfy to be the next one of the plan. -/
theorem find?_eq_next_iff {p : α → Bool} {c : α} {rest : List α} (hplan : c :: rest <:+ items.filter p) :
    items.find? (applies · (bound c)) = rest.head? ↔
      (∀ d ∈ rest.head?, applies d (bound c) = true) ∧
      ∀ e ∈ items, e ∉ items.filter p → applies e (bound c) = true → ∃ d ∈ rest.head?, [d, e] <+ items := by
  obtain ⟨pre, hpre⟩ := hplan
  have hsub : pre ++ c :: rest <+ items := hpre ▸ filter_sublist
  -- planned items up to `c` have bounds up to that of `c`, where they no longer apply
  have hlater (e : α) (he : e ∈ items.filter p) (happ : applies e (bound c) = true) : e ∈ rest := by
    have hnot : ¬ le (bound e) (bound c) := hbelow e (mem_of_mem_filter he) _ happ
    rw [← hpre, mem_append, mem_cons] at he
    rcases he with he | rfl | he
    · exact absurd ((pairwise_append.mp (hsorted.sublist hsub)).2.2 e he c mem_cons_self) hnot
    · exact absurd (hrefl _) hnot
    · exact he
  cases rest with
  | nil =>
    simp only [head?_nil, find?_eq_none, Option.mem_def, reduceCtorEq, false_and, exists_false, imp_false,
      false_implies, implies_true, true_and]
    constructor
    · intro h e he _
      exact h e he
    · intro h e he happ
      by_cases hmem : e ∈ items.filter p
      · exact absurd (hlater e hmem happ) not_mem_nil
      · exact h e he hmem happ
  | cons d rest =>
    simp only [head?_cons, Option.mem_def, Option.some.injEq, forall_eq', exists_eq_left']
    constructor
    · intro h
      obtain ⟨hd, as, bs, rfl, has⟩ := find?_eq_some_iff_append.mp h
      refine ⟨hd, fun e he hnot happ => ?_⟩
      rcases mem_append.mp he with he | he
      · exact absurd happ (by simpa using has e he)
      rcases mem_cons.mp he with rfl | he
      · exact absurd (hpre ▸ by simp) hnot
      · exact (cons_sublist_cons.mpr (singleton_sublist.mpr he)).trans (sublist_append_right _ _)
    · rintro ⟨hd, halone⟩
      have hdmem : d ∈ items := hsub.subset (by simp)
      obtain ⟨e, he⟩ : ∃ e, items.find? (applies · (bound c)) = some e :=
        Option.isSome_iff_exists.mp (find?_isSome.mpr ⟨d, hdmem, hd⟩)
      obtain ⟨happ, as, bs, hitems, has⟩ := find?_eq_some_iff_append.mp he
      rw [he, Option.some.injEq]
      by_contra hne
      -- the first applicable item cannot stand after `d`, which applies too
      refine not_pair_sublist_of_first hnodup hitems has hd (Ne.symm hne) ?_
      have hemem : e ∈ items := hitems ▸ by simp
      by_cases hmem : e ∈ items.filter p
      · have herest : e ∈ rest := (mem_cons.mp (hlater e hmem happ)).resolve_left hne
        have hpair : [d, e] <+ d :: rest := cons_sublist_cons.mpr (singleton_sublist.mpr herest)
        exact hpair.trans ((sublist_cons_self c _).trans ((sublist_append_right pre _).trans hsub))
      · exact halone e hemem hmem happ

variable (le) in
/-- **The walk from a mark takes the planned items exactly if they are successive.** -/
theorem walk_filter_iff (v : β) : Walk applies bound items v (items.filter (applies · v)) ↔
    Successive applies bound items (items.filter (applies · v)) := by
  cases hplan : items.filter (applies · v) with
  | nil =>
    have hnone : items.find? (applies · v) = none := by rw [← head?_filter, hplan, head?_nil]
    simp [Walk, Successive, hnone]
  | cons c rest =>
    have hfirst : items.find? (applies · v) = some c := by rw [← head?_filter, hplan, head?_cons]
    rw [Walk, walk_iff_find?, Successive, ← hplan]
    simp only [hfirst, true_and]
    refine forall_congr' fun d => forall_congr' fun rest => forall_congr' fun hsuffix => ?_
    exact find?_eq_next_iff hbelow hsorted hrefl hnodup hsuffix

end

end GoErp.Lib
