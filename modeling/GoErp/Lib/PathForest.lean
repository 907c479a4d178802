import Mathlib.Data.List.Infix
import Mathlib.Logic.Relation

/-!
# `Lib.PathForest` — a forest with materialized paths

Nodes point at parents, and each node stores the labels from its root down to itself. `PathInv` says that the stored
paths agree with the links wherever both ends of a link are present; a node whose parent is absent keeps some path
that ends in its own label.

Paths grow by one along each link, so under `PathInv` the links have no cycle (`PathInv.acyclic`), and a move is safe
as soon as the new parent's path does not extend the moved node's (`PathInv.move`).
-/

namespace GoErp.Lib

open List

/-- The nodes that are present, each with its parent and its path. -/
abbrev Forest (κ L : Type) := κ → Option (Option κ × List L)

namespace Forest

variable {κ L : Type} (label : κ → L)

/-- Paths agree with links. -/
structure PathInv (F : Forest κ L) : Prop where
  ends : ∀ {k p path}, F k = some (p, path) → ∃ pre, path = pre ++ [label k]
  root : ∀ {k path}, F k = some (none, path) → path = [label k]
  child : ∀ {k p path q qpath}, F k = some (some p, path) → F p = some (q, qpath) → path = qpath ++ [label k]

/-- `k` is linked to the present node `p`. -/
def Link (F : Forest κ L) (k p : κ) : Prop := (∃ path, F k = some (some p, path)) ∧ (F p).isSome = true

variable {label} {F F' : Forest κ L}

/-- Along links the paths get shorter. -/
theorem PathInv.length_lt (h : PathInv label F) {k p : κ} (hlink : Relation.TransGen (Link F) k p) :
    ∀ {x y path qpath}, F k = some (x, path) → F p = some (y, qpath) → qpath.length < path.length := by
  have hone : ∀ {k p x y path qpath}, Link F k p → F k = some (x, path) → F p = some (y, qpath) →
      qpath.length < path.length := by
    rintro k p x y path qpath ⟨⟨path', hk'⟩, -⟩ hk hp
    obtain ⟨rfl, rfl⟩ : some p = x ∧ path' = path := by simpa [hk'] using hk
    rw [h.child hk' hp, length_append]
    exact Nat.lt_succ_self _
  induction hlink with
  | single hlink => exact hone hlink
  | tail _ hlink ih =>
    intro x y path qpath hk hp
    obtain ⟨⟨mid, hmid⟩, -⟩ := hlink
    exact (hone ⟨⟨mid, hmid⟩, by rw [hp]; rfl⟩ hmid hp).trans (ih hk hmid)

/-- **The links have no cycle.** -/
theorem PathInv.acyclic (h : PathInv label F) (k : κ) : ¬ Relation.TransGen (Link F) k k := by
  intro hcycle
  obtain ⟨⟨p, path⟩, hk⟩ : ∃ x, F k = some x := by
    obtain ⟨j, ⟨⟨path, hk⟩, -⟩, -⟩ := Relation.TransGen.head'_iff.mp hcycle
    exact ⟨_, hk⟩
  exact Nat.lt_irrefl _ (h.length_lt hcycle hk hk)

/-- Removing nodes keeps the paths right. -/
theorem PathInv.restrict (h : PathInv label F) (hsub : ∀ k, F' k = F k ∨ F' k = none) : PathInv label F' := by
  have hback : ∀ {k x}, F' k = some x → F k = some x := by
    intro k x hk
    rcases hsub k with heq | hnone
    · rw [← heq, hk]
    · rw [hnone] at hk
      cases hk
  exact {
    ends := fun hk => h.ends (hback hk)
    root := fun hk => h.root (hback hk)
    child := fun hk hp => h.child (hback hk) (hback hp) }

variable [DecidableEq κ]

/-- The path of a node under a parent: the parent's, and its own label. -/
def prefixFor (label : κ → L) (F : Forest κ L) (k : κ) : Option κ → Option (List L)
  | none => some [label k]
  | some p => (F p).map fun x => x.2 ++ [label k]

/-- A new leaf. -/
theorem PathInv.add (h : PathInv label F) {k : κ} {p : Option κ} {path : List L}
    (hpath : prefixFor label F k p = some path) (hleaf : ∀ j path, F j ≠ some (some k, path))
    (hself : p ≠ some k) (hF' : ∀ j, F' j = if j = k then some (p, path) else F j) : PathInv label F' := by
  have hends : ∃ pre, path = pre ++ [label k] := by
    cases p with
    | none => exact ⟨[], (Option.some.inj hpath).symm⟩
    | some p =>
      obtain ⟨x, -, rfl⟩ := Option.map_eq_some_iff.mp hpath
      exact ⟨x.2, rfl⟩
  refine ⟨?_, ?_, ?_⟩
  · intro j q jpath hj
    rw [hF'] at hj
    split at hj
    · next heq =>
        cases hj
        exact heq ▸ hends
    · exact h.ends hj
  · intro j jpath hj
    rw [hF'] at hj
    split at hj
    · next heq =>
        cases hj
        rw [heq]
        exact (Option.some.inj hpath).symm
    · exact h.root hj
  · intro j q jpath r rpath hj hq
    rw [hF'] at hj hq
    split at hj
    · next heq =>
        cases hj
        -- the parent of the leaf is an old node
        have hqk : q ≠ k := fun heq' => hself (congrArg some heq')
        rw [if_neg hqk] at hq
        obtain ⟨x, hx, rfl⟩ := Option.map_eq_some_iff.mp hpath
        rw [hq] at hx
        cases hx
        rw [heq]
    · split at hq
      · next heq => exact absurd (heq ▸ hj) (hleaf j jpath)
      · exact h.child hj hq

/-- A path moved from below one prefix to below another. -/
def rebase [DecidableEq L] (old new path : List L) : List L :=
  if old <+: path then new ++ path.drop old.length else path

section

variable [DecidableEq L]

theorem rebase_self (old new : List L) : rebase old new old = new := by
  rw [rebase, if_pos (prefix_refl old), drop_length, append_nil]

variable {path old : List L}

theorem rebase_of_not_isPrefix (new : List L) (h : ¬ old <+: path) : rebase old new path = path := if_neg h

/-- Rebasing a path that goes on below the prefix keeps its last label. -/
theorem rebase_append (new : List L) (x : L) (h : old <+: path) :
    rebase old new (path ++ [x]) = rebase old new path ++ [x] := by
  rw [rebase, rebase, if_pos h, if_pos (h.trans (prefix_append _ _)), append_assoc,
    drop_append_of_le_length h.length_le]

omit [DecidableEq L] in
/-- A prefix of a path that is not one of the path without its last label is the whole path. -/
theorem eq_of_isPrefix_append {x : L} (h : old <+: path ++ [x]) (hn : ¬ old <+: path) : old = path ++ [x] := by
  rcases prefix_concat_iff.mp h with heq | hpre
  · exact heq
  · exact absurd hpre hn

/-- A moved node and the nodes below it, under a new parent. -/
def moved (F : Forest κ L) (k : κ) (newParent : Option κ) (old new : List L) : Forest κ L := fun j =>
  (F j).map fun x => (if j = k then newParent else x.1, rebase old new x.2)

/-- **Moving a subtree.** When the new parent's path does not extend the old path of the node, giving the node
    its new parent and rebasing every path below the old one keeps the paths right. -/
theorem PathInv.move (h : PathInv label F)
    (hinj : ∀ {j k x y}, F j = some x → F k = some y → label j = label k → j = k) {k : κ}
    {oldParent newParent : Option κ} {new : List L} (hk : F k = some (oldParent, old))
    (hnew : prefixFor label F k newParent = some new)
    (hcycle : ∀ p x, newParent = some p → F p = some x → ¬ old <+: x.2) :
    PathInv label (moved F k newParent old new) := by
  obtain ⟨oldPre, hold⟩ := h.ends hk
  -- a node whose path is exactly the old one is the moved node
  have hunique : ∀ {j x}, F j = some x → x.2 = old → j = k := by
    intro j x hj hx
    obtain ⟨pre, hpre⟩ := h.ends (show F j = some (x.1, x.2) from hj)
    refine hinj hj hk ?_
    have hlast := congrArg List.getLast? (hpre.symm.trans (hx.trans hold))
    simpa using hlast
  have hnewEnds : ∃ pre, new = pre ++ [label k] := by
    cases newParent with
    | none => exact ⟨[], (Option.some.inj hnew).symm⟩
    | some p =>
      obtain ⟨x, -, rfl⟩ := Option.map_eq_some_iff.mp hnew
      exact ⟨x.2, rfl⟩
  -- the two ways a path changes, for a node that is not the moved one
  have hother : ∀ {j x qpath}, F j = some x → j ≠ k → x.2 = qpath ++ [label j] →
      rebase old new x.2 = rebase old new qpath ++ [label j] := by
    intro j x qpath hj hne hx
    by_cases hpre : old <+: qpath
    · rw [hx, rebase_append new _ hpre]
    rw [rebase_of_not_isPrefix new hpre, rebase_of_not_isPrefix new, hx]
    intro hfull
    rw [hx] at hfull
    exact hne (hunique hj (hx.trans (eq_of_isPrefix_append hfull hpre).symm))
  refine ⟨?_, ?_, ?_⟩
  · intro j p path hj
    obtain ⟨x, hx, heq⟩ := Option.map_eq_some_iff.mp hj
    obtain ⟨rfl, rfl⟩ := Prod.mk.inj heq
    by_cases hjk : j = k
    · subst hjk
      rw [hk] at hx
      cases hx
      rw [rebase_self]
      exact hnewEnds
    · obtain ⟨pre, hpre⟩ := h.ends (show F j = some (x.1, x.2) from hx)
      exact ⟨_, hother hx hjk hpre⟩
  · intro j path hj
    obtain ⟨x, hx, heq⟩ := Option.map_eq_some_iff.mp hj
    obtain ⟨hp, rfl⟩ := Prod.mk.inj heq
    by_cases hjk : j = k
    · subst hjk
      rw [if_pos rfl] at hp
      subst hp
      rw [hk] at hx
      cases hx
      rw [rebase_self]
      exact (Option.some.inj hnew).symm
    · rw [if_neg hjk] at hp
      have hroot : x.2 = [] ++ [label j] := h.root (show F j = some (none, x.2) by rw [hx, ← hp])
      rw [hother hx hjk hroot, rebase_of_not_isPrefix]
      · rfl
      intro hnil
      rw [hold] at hnil
      simpa using prefix_nil.mp hnil
  · intro j p path q qpath hj hq
    obtain ⟨x, hx, heq⟩ := Option.map_eq_some_iff.mp hj
    obtain ⟨hp, rfl⟩ := Prod.mk.inj heq
    obtain ⟨y, hy, heq'⟩ := Option.map_eq_some_iff.mp hq
    obtain ⟨-, rfl⟩ := Prod.mk.inj heq'
    by_cases hjk : j = k
    · subst hjk
      rw [if_pos rfl] at hp
      subst hp
      rw [hk] at hx
      cases hx
      -- the new parent is not below the moved node, so its own path stays
      rw [rebase_self, rebase_of_not_isPrefix new (hcycle p y rfl hy)]
      rw [prefixFor, hy] at hnew
      exact (Option.some.inj hnew).symm
    · rw [if_neg hjk] at hp
      exact hother hx hjk (h.child (show F j = some (some p, x.2) by rw [hx, ← hp]) hy)

end

end Forest

end GoErp.Lib
