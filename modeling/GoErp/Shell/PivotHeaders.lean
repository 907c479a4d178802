import GoErp.Shell.PivotMapping

/-!
# `Shell.PivotHeaders` — the header cells of a pivot grid

`layoutHeaderLevels` (`renderers/pivot/pivot-grid-layout.ts`) pushes a cell for every visible node onto the level of its
depth. The walk of a node fills the columns of its visible leaves, from its depth to the last level (`Fills`).
-/

namespace GoErp.Pivot

open List

structure PivotHeaderCell where
  node : PivotHeaderNode
  depth : Nat
  span : Nat
  crossSpan : Nat
  hasChildren : Bool
  isCollapsed : Bool
  startIndex : Nat
  leafKeys : List String

/-- The cell stands at row `r` and column `x` of the grid. -/
def PivotHeaderCell.covers (c : PivotHeaderCell) (r x : Nat) : Bool :=
  (c.depth ≤ r && r < c.depth + c.crossSpan) && (c.startIndex ≤ x && x < c.startIndex + c.span)

/-- What the walk has written: the levels, and the number of leaves it has passed. -/
structure HeaderLayout where
  levels : List (List PivotHeaderCell)
  leafCounter : Nat

/-- `levels[depth]?.push(cell)` -/
def HeaderLayout.push (s : HeaderLayout) (depth : Nat) (cell : PivotHeaderCell) : HeaderLayout :=
  { s with levels := s.levels.modify depth (· ++ [cell]) }

/-- Depth of the full tree, ignoring collapse. -/
def treeDepth : List PivotHeaderNode → Nat
  | [] => 1
  | .mk _ _ children :: nodes =>
    if children.isEmpty then treeDepth nodes else max (1 + treeDepth children) (treeDepth nodes)
termination_by nodes => sizeOf nodes
decreasing_by
  all_goals
    simp only [List.cons.sizeOf_spec, PivotHeaderNode.mk.sizeOf_spec]
    omega

variable (collapsed : String → Bool)

def isCollapsedOrLeaf (node : PivotHeaderNode) : Bool := node.children.isEmpty || collapsed node.key

def visibleLeaves : List PivotHeaderNode → List PivotHeaderNode
  | [] => []
  | .mk key label children :: nodes =>
    (if isCollapsedOrLeaf collapsed (.mk key label children) then [.mk key label children]
      else visibleLeaves children) ++ visibleLeaves nodes

mutual

def walk (maxDepth : Nat) : PivotHeaderNode → Nat → HeaderLayout → List String × HeaderLayout
  | .mk key label children, depth, s =>
    let node := PivotHeaderNode.mk key label children
    let collapsedHere := isCollapsedOrLeaf collapsed node
    let (leafKeys, t) :=
      if collapsedHere then ([key], { s with leafCounter := s.leafCounter + 1 })
      else walkAll maxDepth children (depth + 1) s
    (leafKeys, t.push depth
      { node
        depth
        span := leafKeys.length
        crossSpan := if collapsedHere then maxDepth - depth else 1
        hasChildren := !children.isEmpty
        isCollapsed := collapsed key
        startIndex := s.leafCounter
        leafKeys })

/-- `for (const node of nodes) walk(node, depth)` -/
def walkAll (maxDepth : Nat) : List PivotHeaderNode → Nat → HeaderLayout → List String × HeaderLayout
  | [], _, s => ([], s)
  | node :: nodes, depth, s =>
    let (leafKeys, t) := walk maxDepth node depth s
    let (more, u) := walkAll maxDepth nodes depth t
    (leafKeys ++ more, u)

end

/-- One row of cells per level of the tree. -/
def layoutHeaderLevels (nodes : List PivotHeaderNode) : List (List PivotHeaderCell) :=
  (walkAll collapsed (treeDepth nodes) nodes 0 ⟨List.replicate (treeDepth nodes) [], 0⟩).2.levels

/-! ## What a walk fills -/

theorem countP_flatten_modify {α : Type} (p : α → Bool) (a : α) {l : List (List α)} {d : Nat} (hd : d < l.length) :
    (l.modify d (· ++ [a])).flatten.countP p = l.flatten.countP p + if p a then 1 else 0 := by
  rw [modify_eq_take_cons_drop hd]
  conv_rhs => rw [← take_append_drop d l, drop_eq_getElem_cons hd]
  simp only [flatten_append, flatten_cons, countP_append, countP_singleton]
  omega

/-- A row over the leaves passed so far: its cells stand from left to right, and each lists the keys of its columns. -/
def RowOk (leaves : List PivotHeaderNode) (i : Nat) (level : List PivotHeaderCell) : Prop :=
  level.Pairwise (fun a b => a.startIndex + a.span ≤ b.startIndex) ∧ ∀ c ∈ level, c.depth = i ∧
    c.startIndex + c.span ≤ leaves.length ∧ c.leafKeys = ((leaves.drop c.startIndex).take c.span).map (·.key)

def RowsOk (leaves : List PivotHeaderNode) (s : HeaderLayout) : Prop :=
  ∀ (i : Nat) level, s.levels[i]? = some level → RowOk leaves i level

/-- A walk that began in `s` passed `leaves`, and filled their columns from row `depth` on. -/
structure Fills (maxDepth depth : Nat) (s : HeaderLayout) (leaves : List PivotHeaderNode)
    (r : List String × HeaderLayout) : Prop where
  keys : r.1 = leaves.map (·.key)
  counter : r.2.leafCounter = s.leafCounter + leaves.length
  length : r.2.levels.length = s.levels.length
  above : ∀ i < depth, r.2.levels[i]? = s.levels[i]?
  cover : ∀ y x, r.2.levels.flatten.countP (·.covers y x) = s.levels.flatten.countP (·.covers y x) +
    if (depth ≤ y ∧ y < maxDepth) ∧ s.leafCounter ≤ x ∧ x < r.2.leafCounter then 1 else 0
  rows : ∀ before, s.leafCounter = before.length → RowsOk before s → RowsOk (before ++ leaves) r.2

variable {maxDepth depth below i : Nat} {s : HeaderLayout} {leaves more : List PivotHeaderNode}
  {level : List PivotHeaderCell} {r r' : List String × HeaderLayout}

theorem RowOk.append (h : RowOk leaves i level) (more : List PivotHeaderNode) : RowOk (leaves ++ more) i level := by
  refine ⟨h.1, fun c hc => ?_⟩
  obtain ⟨hdepth, hend, hkeys⟩ := h.2 c hc
  refine ⟨hdepth, by simp; omega, ?_⟩
  rw [hkeys, drop_append_of_le_length (by omega), take_append_of_le_length (by simp; omega)]

/-- A walk that has written no cell: it passed no leaf, or has no row to fill. -/
theorem Fills.pass (s : HeaderLayout) (leaves : List PivotHeaderNode) (h : leaves = [] ∨ depth = maxDepth) :
    Fills maxDepth depth s leaves (leaves.map (·.key), { s with leafCounter := s.leafCounter + leaves.length }) where
  keys := rfl
  counter := rfl
  length := rfl
  above _ _ := rfl
  cover y x := by
    rw [if_neg]
    · rfl
    rcases h with rfl | rfl
    · simp
    · omega
  rows before _ h i level hlevel := (h i level hlevel).append leaves

/-- The columns of one walk lie left of those of the next. -/
theorem Fills.append (h : Fills maxDepth depth s leaves r) (h' : Fills maxDepth depth r.2 more r') :
    Fills maxDepth depth s (leaves ++ more) (r.1 ++ r'.1, r'.2) where
  keys := by rw [h.keys, h'.keys, map_append]
  counter := by rw [h'.counter, h.counter, length_append, Nat.add_assoc]
  length := h'.length.trans h.length
  above i hi := (h'.above i hi).trans (h.above i hi)
  cover y x := by
    have hcounter := h.counter
    have hcounter' := h'.counter
    rw [h'.cover, h.cover]
    dsimp only
    split_ifs <;> omega
  rows before hs hrows := by
    rw [← append_assoc]
    exact h'.rows _ (by rw [h.counter, hs, length_append]) (h.rows before hs hrows)

/-- The cell of a node is written last: it stands over the leaves passed, and reaches down to the rows filled. -/
theorem Fills.push (h : Fills maxDepth below s leaves r) (hdepth : depth < below) (hbelow : below ≤ maxDepth)
    (hlevels : s.levels.length = maxDepth) (node : PivotHeaderNode) (hasChildren isCollapsed : Bool) :
    Fills maxDepth depth s leaves (r.1, r.2.push depth
      ⟨node, depth, r.1.length, below - depth, hasChildren, isCollapsed, s.leafCounter, r.1⟩) where
  keys := h.keys
  counter := h.counter
  length := (length_modify ..).trans h.length
  above i hi := by
    rw [← h.above i (by omega)]
    exact getElem?_modify_ne _ _ (by omega)
  cover y x := by
    have hcounter := h.counter
    have hspan : r.1.length = leaves.length := by rw [h.keys, length_map]
    rw [HeaderLayout.push, countP_flatten_modify _ _ (by rw [h.length]; omega), h.cover]
    simp only [PivotHeaderCell.covers, Bool.and_eq_true, decide_eq_true_eq, hspan, hcounter]
    split_ifs <;> omega
  rows before hs hrows i level hlevel := by
    by_cases hi : depth = i
    · subst hi
      obtain ⟨front, hfront, rfl⟩ := Option.map_eq_some_iff.mp ((getElem?_modify_eq ..).symm.trans hlevel)
      -- the walk below left this row alone, so its cells end before the walk began
      have hrow := hrows depth front ((h.above depth hdepth).symm.trans hfront)
      refine ⟨pairwise_append.mpr ⟨hrow.1, pairwise_singleton _ _, fun a ha b hb => ?_⟩, fun c hc => ?_⟩
      · rw [mem_singleton.mp hb, hs]
        exact (hrow.2 a ha).2.1
      rcases mem_append.mp hc with hc | hc
      · exact (hrow.append leaves).2 c hc
      · rw [mem_singleton.mp hc, hs, h.keys]
        simp
    · exact h.rows before hs hrows i level ((getElem?_modify_ne _ _ hi).symm.trans hlevel)

theorem treeDepth_pos (nodes : List PivotHeaderNode) : 0 < treeDepth nodes := by
  fun_induction treeDepth nodes <;> omega

theorem walkAll_fills (nodes : List PivotHeaderNode) (hdepth : depth + treeDepth nodes ≤ maxDepth)
    (hlevels : s.levels.length = maxDepth) :
    Fills maxDepth depth s (visibleLeaves collapsed nodes) (walkAll collapsed maxDepth nodes depth s) := by
  induction nodes using visibleLeaves.induct generalizing depth s with
  | case1 =>
    rw [walkAll, visibleLeaves]
    exact Fills.pass s [] (.inl rfl)
  | case2 key label children nodes ihc ih =>
    have hpos := treeDepth_pos nodes
    have hrest : depth + treeDepth nodes ≤ maxDepth := by
      rw [treeDepth] at hdepth
      split at hdepth <;> omega
    have hlt : depth < maxDepth := by omega
    rw [walkAll, walk, visibleLeaves]
    by_cases hleaf : isCollapsedOrLeaf collapsed (.mk key label children) = true
    · simp only [hleaf, if_true]
      have hnode := (Fills.pass s [.mk key label children] (.inr rfl)).push hlt (Nat.le_refl _) hlevels
        (.mk key label children) (!children.isEmpty) (collapsed key)
      exact hnode.append (ih hrest (hnode.length.trans hlevels))
    · have hsome : ¬ children.isEmpty = true := by
        intro hempty
        exact hleaf (by simp [isCollapsedOrLeaf, PivotHeaderNode.children, hempty])
      rw [treeDepth, if_neg hsome] at hdepth
      have hdown : depth + 1 + treeDepth children ≤ maxDepth := by omega
      simp only [hleaf, Bool.false_eq_true, if_false]
      have hnode := (ihc hdown hlevels).push (Nat.lt_succ_self depth) hlt hlevels (.mk key label children)
        (!children.isEmpty) (collapsed key)
      rw [Nat.add_sub_cancel_left] at hnode
      exact hnode.append (ih hrest (hnode.length.trans hlevels))

/-- **The header cells tile the grid.** Every position is covered once and none outside; in each row the cells stand
from left to right, and each lists the keys of the visible leaves at its columns. -/
theorem layoutHeaderLevels_tiles (collapsed : String → Bool) (nodes : List PivotHeaderNode) :
    (layoutHeaderLevels collapsed nodes).length = treeDepth nodes ∧
    (∀ y x, (layoutHeaderLevels collapsed nodes).flatten.countP (·.covers y x) =
      if y < treeDepth nodes ∧ x < (visibleLeaves collapsed nodes).length then 1 else 0) ∧
    ∀ (i : Nat) level, (layoutHeaderLevels collapsed nodes)[i]? = some level →
      RowOk (visibleLeaves collapsed nodes) i level := by
  have h := walkAll_fills collapsed (s := ⟨List.replicate (treeDepth nodes) [], 0⟩) nodes
    (Nat.le_of_eq (Nat.zero_add _)) length_replicate
  refine ⟨h.length.trans length_replicate, fun y x => ?_, h.rows [] rfl fun i level hlevel => ?_⟩
  · rw [layoutHeaderLevels, h.cover, h.counter]
    simp
  · rw [eq_of_mem_replicate (mem_of_getElem? hlevel)]
    exact ⟨List.Pairwise.nil, by simp⟩

end GoErp.Pivot
