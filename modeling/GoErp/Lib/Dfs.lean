import Mathlib.Data.List.Chain
import Mathlib.Data.List.Nodup
import Mathlib.Data.List.Perm.Subperm
import Mathlib.Logic.Relation

/-!
# `Lib.Dfs` — cycles of a finite graph by depth-first search

A node is white, gray (on the current path) or black (finished). An edge to a gray node closes a cycle, which is the
path from that node on; a node turns black when all its edges lead to black nodes. The black nodes are therefore a
list in which every node precedes its successors (`Topo`), and a search that ends with all nodes black has shown the
graph acyclic (`findCycle_eq_none_iff`).
-/

namespace GoErp.Lib.Dfs

open Relation List

variable {α : Type}

/-- A cycle, or the black nodes. -/
inductive Result (α : Type) where
  | cycle (nodes : List α)
  | done (black : List α)

section

variable [DecidableEq α] (succ : α → List α)

/-- The edges of the last node of the path; `visit` is called on white nodes. -/
def visitEdges (visit : List α → List α → α → Result α) (path : List α) : (black : List α) → List α → Result α
  | black, [] => .done black
  | black, e :: es =>
    if e ∈ path then .cycle (path.drop (path.idxOf e))
    else if e ∈ black then visitEdges visit path black es
    else
      match visit path black e with
      | .cycle c => .cycle c
      | .done black' => visitEdges visit path black' es

def visit : (fuel : Nat) → (path black : List α) → α → Result α
  | 0, _, black, _ => .done black
  | fuel + 1, path, black, n =>
    match visitEdges (visit fuel) (path ++ [n]) black (succ n) with
    | .cycle c => .cycle c
    | .done black' => .done (n :: black')

/-- The search from every node in turn. The path never has more nodes than there are, which bounds the depth. -/
def findCycle (nodes : List α) : Option (List α) :=
  match visitEdges (visit succ (nodes.length + 1)) [] [] nodes with
  | .cycle c => some c
  | .done _ => none

end

/-! ## The black nodes -/

variable (succ : α → List α)

def Edge (a b : α) : Prop := b ∈ succ a

/-- Every node stands before its successors, and all of these are there. -/
def Topo : List α → Prop
  | [] => True
  | n :: l => n ∉ l ∧ (∀ e ∈ succ n, e ∈ l) ∧ Topo l

variable {succ} {a : α}

theorem Topo.closed {l : List α} (h : Topo succ l) {b : α} (ha : a ∈ l) (hab : TransGen (Edge succ) a b) : b ∈ l := by
  induction l generalizing a b with
  | nil => exact absurd ha not_mem_nil
  | cons n l ih =>
    obtain ⟨_, hsucc, hl⟩ := h
    rcases mem_cons.mp ha with rfl | ha
    · obtain ⟨c, hac, hcb⟩ := (TransGen.head'_iff).mp hab
      rcases (reflTransGen_iff_eq_or_transGen).mp hcb with rfl | hcb
      · exact mem_cons_of_mem _ (hsucc _ hac)
      · exact mem_cons_of_mem _ (ih hl (hsucc _ hac) hcb)
    · exact mem_cons_of_mem _ (ih hl ha hab)

theorem Topo.acyclic {l : List α} (h : Topo succ l) (ha : a ∈ l) : ¬ TransGen (Edge succ) a a := by
  induction l with
  | nil => exact absurd ha not_mem_nil
  | cons n l ih =>
    obtain ⟨hn, hsucc, hl⟩ := h
    intro haa
    rcases mem_cons.mp ha with rfl | ha
    · -- a step out of the first node does not come back to it
      obtain ⟨c, hac, hca⟩ := (TransGen.head'_iff).mp haa
      rcases (reflTransGen_iff_eq_or_transGen).mp hca with rfl | hca
      · exact hn (hsucc _ hac)
      · exact hn (hl.closed (hsucc _ hac) hca)
    · exact ih hl ha haa

/-! ## A cycle that is found -/

/-- A closed walk: every node leads to the next, and the last to the first. -/
structure IsCycle (succ : α → List α) (c : List α) : Prop where
  ne_nil : c ≠ []
  chain : (c ++ c.head?.toList).IsChain (Edge succ)

theorem IsCycle.transGen {c : List α} (h : IsCycle succ c) (ha : a ∈ c) : TransGen (Edge succ) a a := by
  cases c with
  | nil => exact absurd ha not_mem_nil
  | cons n l =>
    have hpairs : (n :: (l ++ [n])).Pairwise (TransGen (Edge succ)) :=
      (h.chain.imp fun _ _ => TransGen.single).pairwise
    obtain ⟨hfirst, hlast⟩ := pairwise_cons.mp hpairs
    rcases mem_cons.mp ha with rfl | ha
    · exact hfirst a (by simp)
    -- from the node to the end of the walk, and from there to the node
    have hto := (pairwise_append.mp hlast).2.2 a ha n (by simp)
    exact hto.trans (hfirst a (by simp [ha]))

section

variable [DecidableEq α]

/-- What a reported cycle is known to be. -/
structure Found (succ : α → List α) (nodes c : List α) : Prop where
  closed : IsCycle succ c
  subset : ∀ x ∈ c, x ∈ nodes

variable {nodes : List α} (hsucc : ∀ n ∈ nodes, ∀ e ∈ succ n, e ∈ nodes)

theorem found_of_mem_path {path : List α} {e : α} (hpath : ∀ p ∈ path, p ∈ nodes)
    (hchain : (path ++ [e]).IsChain (Edge succ)) (he : e ∈ path) : Found succ nodes (path.drop (path.idxOf e)) := by
  have hlt := idxOf_lt_length_of_mem he
  have hdrop : path.drop (path.idxOf e) = e :: path.drop (path.idxOf e + 1) := by
    rw [drop_eq_getElem_cons hlt, getElem_idxOf hlt]
  refine ⟨⟨by simp [hdrop], ?_⟩, fun x hx => hpath x (mem_of_mem_drop hx)⟩
  have hhead : (path.drop (path.idxOf e)).head?.toList = [e] := by rw [hdrop]; rfl
  rw [hhead, ← drop_append_of_le_length hlt.le]
  exact hchain.drop _

/-- The edges `es` all leave from where the path leads to. -/
theorem found_of_visitEdges {visit : List α → List α → α → Result α} {path es black c : List α}
    (hpath : ∀ p ∈ path, p ∈ nodes) (hes : ∀ e ∈ es, (path ++ [e]).IsChain (Edge succ))
    (hvisit : ∀ black e c, e ∈ es → visit path black e = .cycle c → Found succ nodes c)
    (h : visitEdges visit path black es = .cycle c) : Found succ nodes c := by
  induction es generalizing black with
  | nil => cases h
  | cons e es ih =>
    have ih' (black) (h : visitEdges visit path black es = .cycle c) : Found succ nodes c :=
      ih (fun e' he' => hes e' (mem_cons_of_mem _ he'))
        (fun black e' c he' => hvisit black e' c (mem_cons_of_mem _ he')) h
    unfold visitEdges at h
    by_cases hgray : e ∈ path
    · rw [if_pos hgray] at h
      cases h
      exact found_of_mem_path hpath (hes e mem_cons_self) hgray
    rw [if_neg hgray] at h
    by_cases hblack : e ∈ black
    · rw [if_pos hblack] at h
      exact ih' black h
    rw [if_neg hblack] at h
    cases hv : visit path black e with
    | cycle c' =>
      simp only [hv] at h
      cases h
      exact hvisit black e _ mem_cons_self hv
    | done black' =>
      simp only [hv] at h
      exact ih' black' h

include hsucc

theorem found_of_visit {fuel : Nat} {path black c : List α} {n : α} (hnodes : ∀ p ∈ path ++ [n], p ∈ nodes)
    (hchain : (path ++ [n]).IsChain (Edge succ)) (h : visit succ fuel path black n = .cycle c) :
    Found succ nodes c := by
  induction fuel generalizing path black n c with
  | zero => cases h
  | succ fuel ih =>
    unfold visit at h
    have hes : ∀ e ∈ succ n, (path ++ [n] ++ [e]).IsChain (Edge succ) := by
      intro e he
      refine hchain.append (.singleton e) ?_
      simpa [Edge] using he
    cases hv : visitEdges (visit succ fuel) (path ++ [n]) black (succ n) with
    | done black' => simp [hv] at h
    | cycle c' =>
      simp only [hv] at h
      cases h
      refine found_of_visitEdges hnodes hes ?_ hv
      intro black e c he hc
      refine ih ?_ (hes e he) hc
      intro p hp
      rcases mem_append.mp hp with hp | hp
      · exact hnodes p hp
      · exact mem_singleton.mp hp ▸ hsucc n (hnodes n (by simp)) e he

theorem found_of_findCycle {c : List α} (h : findCycle succ nodes = some c) : Found succ nodes c := by
  unfold findCycle at h
  split at h
  · rename_i hv
    cases h
    refine found_of_visitEdges (fun p hp => absurd hp not_mem_nil) (fun e _ => .singleton e) ?_ hv
    intro black e c he hc
    exact found_of_visit hsucc (by simpa using he) (.singleton e) hc
  · cases h

end

/-! ## A search that finds none -/

section

variable [DecidableEq α]

/-- The black nodes so far: finished, and none of them on the path. -/
structure Finished (succ : α → List α) (nodes path black : List α) : Prop where
  topo : Topo succ black
  within : ∀ x ∈ black, x ∈ nodes
  disjoint : ∀ p ∈ path, p ∉ black

/-- What finishing more nodes keeps. -/
structure Extends (succ : α → List α) (nodes path black black' : List α) : Prop where
  finished : Finished succ nodes path black'
  subset : ∀ x ∈ black, x ∈ black'

variable {nodes : List α} {black : List α}

theorem done_of_visitEdges {visit : List α → List α → α → Result α} {path es black' : List α}
    (hvisit : ∀ black e black', e ∈ es → e ∉ path → e ∉ black → Finished succ nodes path black →
      visit path black e = .done black' → Extends succ nodes path black black' ∧ e ∈ black')
    (hfin : Finished succ nodes path black) (h : visitEdges visit path black es = .done black') :
    Extends succ nodes path black black' ∧ ∀ e ∈ es, e ∈ black' := by
  induction es generalizing black with
  | nil =>
    cases h
    exact ⟨⟨hfin, fun _ hx => hx⟩, fun e he => absurd he not_mem_nil⟩
  | cons e es ih =>
    have ih' (black) (hfin : Finished succ nodes path black) (h : visitEdges visit path black es = .done black') :
        Extends succ nodes path black black' ∧ ∀ e ∈ es, e ∈ black' :=
      ih (fun black e' black' he' => hvisit black e' black' (mem_cons_of_mem _ he')) hfin h
    unfold visitEdges at h
    split at h
    · cases h
    rename_i hgray
    split at h
    · rename_i hblack
      obtain ⟨hext, hall⟩ := ih' black hfin h
      refine ⟨hext, fun x hx => ?_⟩
      rcases mem_cons.mp hx with rfl | hx
      · exact hext.subset _ hblack
      · exact hall x hx
    · rename_i hblack
      split at h
      · cases h
      rename_i mid hv
      obtain ⟨hmid, hemid⟩ := hvisit black e mid mem_cons_self hgray hblack hfin hv
      obtain ⟨hext, hall⟩ := ih' mid hmid.finished h
      refine ⟨⟨hext.finished, fun x hx => hext.subset x (hmid.subset x hx)⟩, fun x hx => ?_⟩
      rcases mem_cons.mp hx with rfl | hx
      · exact hext.subset _ hemid
      · exact hall x hx

variable (hsucc : ∀ n ∈ nodes, ∀ e ∈ succ n, e ∈ nodes)
include hsucc

theorem done_of_visit {fuel : Nat} {path black' : List α} {n : α} (hnodup : (path ++ [n]).Nodup)
    (hnodes : ∀ p ∈ path ++ [n], p ∈ nodes) (hfuel : nodes.length < fuel + path.length) (hblack : n ∉ black)
    (hfin : Finished succ nodes path black) (h : visit succ fuel path black n = .done black') :
    Extends succ nodes path black black' ∧ n ∈ black' := by
  induction fuel generalizing path black n black' with
  | zero =>
    -- the path has distinct nodes, so there are more nodes than it has
    have hle := (subperm_of_subset hnodup hnodes).length_le
    simp only [length_append, length_singleton] at hle
    omega
  | succ fuel ih =>
    unfold visit at h
    split at h
    · cases h
    rename_i mid hv
    cases h
    have hfin' : Finished succ nodes (path ++ [n]) black := by
      refine ⟨hfin.topo, hfin.within, fun p hp => ?_⟩
      rcases mem_append.mp hp with hp | hp
      · exact hfin.disjoint p hp
      · exact mem_singleton.mp hp ▸ hblack
    have hn : n ∈ nodes := hnodes n (mem_append_right _ (mem_singleton_self n))
    obtain ⟨hext, hall⟩ : Extends succ nodes (path ++ [n]) black mid ∧ ∀ e ∈ succ n, e ∈ mid := by
      refine done_of_visitEdges ?_ hfin' hv
      intro black e black' he hgray hwhite hfin hdone
      refine ih ?_ ?_ ?_ hwhite hfin hdone
      · rw [nodup_append]
        refine ⟨hnodup, nodup_singleton e, ?_⟩
        intro a ha b hb hab
        exact hgray (mem_singleton.mp hb ▸ hab ▸ ha)
      · intro p hp
        rcases mem_append.mp hp with hp | hp
        · exact hnodes p hp
        · exact mem_singleton.mp hp ▸ hsucc n hn e he
      · simp only [length_append, length_singleton]
        omega
    have hnmid : n ∉ mid := hext.finished.disjoint n (mem_append_right _ (mem_singleton_self n))
    refine ⟨⟨⟨⟨hnmid, hall, hext.finished.topo⟩, ?_, ?_⟩, ?_⟩, mem_cons_self⟩
    · exact forall_mem_cons.mpr ⟨hn, hext.finished.within⟩
    · intro p hp hmem
      rcases mem_cons.mp hmem with rfl | hmem
      · exact (disjoint_of_nodup_append hnodup) hp (mem_singleton_self _)
      · exact hext.finished.disjoint p (mem_append_left _ hp) hmem
    · intro x hx
      exact mem_cons_of_mem _ (hext.subset x hx)

/-- The search over all nodes blackens them all. -/
theorem done_of_nodes (h : visitEdges (visit succ (nodes.length + 1)) [] [] nodes = .done black) :
    Finished succ nodes [] black ∧ ∀ e ∈ nodes, e ∈ black := by
  have hfin : Finished succ nodes [] ([] : List α) := ⟨trivial, by simp, by simp⟩
  obtain ⟨hext, hall⟩ : Extends succ nodes [] [] black ∧ ∀ e ∈ nodes, e ∈ black := by
    refine done_of_visitEdges ?_ hfin h
    intro black e black' he _ hwhite hfin hdone
    refine done_of_visit hsucc (nodup_singleton e) ?_ (by simp) hwhite hfin hdone
    intro p hp
    exact mem_singleton.mp hp ▸ he
  exact ⟨hext.finished, hall⟩

/-- **The search finds a cycle exactly if there is one.** -/
theorem findCycle_eq_none_iff : findCycle succ nodes = none ↔ ∀ n ∈ nodes, ¬ TransGen (Edge succ) n n := by
  constructor
  · intro h n hn
    unfold findCycle at h
    split at h
    · cases h
    rename_i black hv
    obtain ⟨hfin, hall⟩ := done_of_nodes hsucc hv
    exact hfin.topo.acyclic (hall n hn)
  · intro h
    cases hc : findCycle succ nodes with
    | none => rfl
    | some c =>
      have hfound := found_of_findCycle hsucc hc
      obtain ⟨a, ha⟩ := exists_mem_of_ne_nil _ hfound.closed.ne_nil
      exact absurd (hfound.closed.transGen ha) (h a (hfound.subset a ha))

end

end GoErp.Lib.Dfs
