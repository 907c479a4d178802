import Mathlib.Data.List.Basic

/-!
# `Lib.Tree` — rose trees with labelled edges

A tree of messages: each node has a label, and its children in order, each under the field that holds it.
`nodes` lists a tree's nodes. Two rules carry the proofs: a property that passes from every node to its
children holds of all nodes (`Tree.nodes_induct`), and every node but the root is a child of some node
(`Tree.eq_or_child`).
-/

namespace GoErp.Lib

open List

/-- A labelled tree; each child stands under a field. -/
inductive Tree (α β : Type) where
  | mk (label : α) (children : List (β × Tree α β))

namespace Tree

variable {α β : Type}

def label : Tree α β → α
  | .mk label _ => label

def children : Tree α β → List (β × Tree α β)
  | .mk _ children => children

@[simp] theorem label_mk (l : α) (cs : List (β × Tree α β)) : (mk l cs).label = l := rfl

@[simp] theorem children_mk (l : α) (cs : List (β × Tree α β)) : (mk l cs).children = cs := rfl

/-- Induction over trees, with the children as one family of hypotheses. -/
theorem induct {P : Tree α β → Prop} (node : ∀ l cs, (∀ x ∈ cs, P x.2) → P (.mk l cs)) : ∀ t, P t := by
  intro t
  refine @Tree.rec α β P (fun cs => ∀ x ∈ cs, P x.2) (fun x => P x.2) node ?_ ?_ ?_ t
  · intro x hx
    exact absurd hx (by simp)
  · intro head tail hhead htail x hx
    rcases mem_cons.mp hx with rfl | hx
    · exact hhead
    · exact htail x hx
  · intro _ _ ht
    exact ht

mutual

/-- The nodes of a tree, the root first. -/
def nodes : Tree α β → List (Tree α β)
  | .mk l cs => .mk l cs :: nodesList cs

def nodesList : List (β × Tree α β) → List (Tree α β)
  | [] => []
  | (_, t) :: rest => nodes t ++ nodesList rest

end

variable {n : Tree α β}

theorem mem_nodesList {cs : List (β × Tree α β)} : n ∈ nodesList cs ↔ ∃ x ∈ cs, n ∈ nodes x.2 := by
  induction cs with
  | nil => simp [nodesList]
  | cons c cs ih => rw [nodesList, mem_append, ih, exists_mem_cons_iff]

/-- The nodes of a tree are the root and the nodes of its children. -/
theorem mem_nodes_mk {l : α} {cs : List (β × Tree α β)} :
    n ∈ nodes (.mk l cs) ↔ n = .mk l cs ∨ ∃ x ∈ cs, n ∈ nodes x.2 := by
  rw [nodes, mem_cons, mem_nodesList]

theorem mem_nodes_self (t : Tree α β) : t ∈ nodes t := by
  cases t with
  | mk l cs => exact mem_nodes_mk.mpr (.inl rfl)

variable {t : Tree α β}

/-- The nodes of a node are nodes of the tree. -/
theorem nodes_trans {m : Tree α β} (hn : n ∈ nodes t) (hm : m ∈ nodes n) : m ∈ nodes t := by
  induction t using Tree.induct with
  | node l cs ih =>
    rcases mem_nodes_mk.mp hn with rfl | ⟨x, hx, hn⟩
    · exact hm
    · exact mem_nodes_mk.mpr (.inr ⟨x, hx, ih x hx hn⟩)

/-- The children of a node are nodes of the tree. -/
theorem child_mem_nodes (hn : n ∈ nodes t) {x : β × Tree α β} (hx : x ∈ n.children) : x.2 ∈ nodes t := by
  refine nodes_trans hn ?_
  cases n with
  | mk l cs => exact mem_nodes_mk.mpr (.inr ⟨x, hx, mem_nodes_self x.2⟩)

/-- **What passes to children holds of every node.** -/
theorem nodes_induct {P : Tree α β → Prop} (root : P t) (child : ∀ n ∈ nodes t, P n → ∀ x ∈ n.children, P x.2) :
    ∀ n ∈ nodes t, P n := by
  induction t using Tree.induct with
  | node l cs ih =>
    intro n hn
    rcases mem_nodes_mk.mp hn with rfl | ⟨x, hx, hn⟩
    · exact root
    · refine ih x hx (child _ (mem_nodes_self _) root x hx) (fun m hm => ?_) n hn
      exact child m (mem_nodes_mk.mpr (.inr ⟨x, hx, hm⟩))

/-- A node is the root or the child of a node. -/
theorem eq_or_child (hn : n ∈ nodes t) : n = t ∨ ∃ m ∈ nodes t, ∃ f, (f, n) ∈ m.children := by
  refine nodes_induct (P := fun n => n = t ∨ ∃ m ∈ nodes t, ∃ f, (f, n) ∈ m.children) (.inl rfl) ?_ n hn
  intro m hm _ x hx
  exact .inr ⟨m, hm, x.1, hx⟩

/-- Children are smaller, which recursion over nodes needs. -/
theorem sizeOf_child_lt {x : β × Tree α β} (hx : x ∈ n.children) : sizeOf x.2 < sizeOf n := by
  obtain ⟨l, cs⟩ := n
  have hlt := List.sizeOf_lt_of_mem hx
  obtain ⟨f, c⟩ := x
  simp only [children_mk, Prod.mk.sizeOf_spec, mk.sizeOf_spec] at hlt ⊢
  omega

/-- A tree does not occur below itself. -/
theorem child_ne (hn : n ∈ nodes t) {x : β × Tree α β} (hx : x ∈ n.children) : x.2 ≠ t := by
  have hle : sizeOf n ≤ sizeOf t :=
    nodes_induct (P := fun n => sizeOf n ≤ sizeOf t) (Nat.le_refl _)
      (fun m _ hm y hy => Nat.le_trans (Nat.le_of_lt (sizeOf_child_lt hy)) hm) n hn
  intro heq
  have hlt := sizeOf_child_lt hx
  rw [heq] at hlt
  omega

section

variable {γ δ : Type}

mutual

/-- The tree with every label replaced. -/
def map (f : α → γ) : Tree α β → Tree γ β
  | .mk l cs => .mk (f l) (mapList f cs)

def mapList (f : α → γ) : List (β × Tree α β) → List (β × Tree γ β)
  | [] => []
  | (b, t) :: rest => (b, map f t) :: mapList f rest

end

theorem mapList_eq (f : α → γ) (cs : List (β × Tree α β)) : mapList f cs = cs.map fun x => (x.1, map f x.2) := by
  induction cs with
  | nil => rfl
  | cons c cs ih => rw [mapList, ih, map_cons]

theorem map_map (f : α → γ) (g : γ → δ) (t : Tree α β) : map g (map f t) = map (g ∘ f) t := by
  induction t using Tree.induct with
  | node l cs ih =>
    simp only [map, mapList_eq, List.map_map, Function.comp_apply, mk.injEq, true_and]
    exact map_congr_left fun x hx => congrArg (x.1, ·) (ih x hx)

/-- A map depends on the labels of the tree's nodes only. -/
theorem map_congr {f g : α → γ} {t : Tree α β} (h : ∀ n ∈ nodes t, f n.label = g n.label) : map f t = map g t := by
  induction t using Tree.induct with
  | node l cs ih =>
    rw [map, map, mapList_eq, mapList_eq, show f l = g l from h _ (mem_nodes_self _)]
    refine congrArg (mk (g l)) (map_congr_left fun x hx => congrArg (x.1, ·) (ih x hx fun n hn => ?_))
    exact h n (mem_nodes_mk.mpr (.inr ⟨x, hx, hn⟩))

/-- The nodes of a mapped tree are the mapped nodes. -/
theorem mem_nodes_map {f : α → γ} {t : Tree α β} {n : Tree γ β} : n ∈ nodes (map f t) ↔ ∃ m ∈ nodes t, n = map f m := by
  induction t using Tree.induct with
  | node l cs ih =>
    rw [map, mem_nodes_mk, mapList_eq]
    simp only [mem_nodes_mk, mem_map, exists_exists_and_eq_and, or_and_right, exists_or, exists_eq_left]
    rw [map, mapList_eq]
    refine or_congr Iff.rfl ⟨?_, ?_⟩
    · rintro ⟨x, hx, hn⟩
      obtain ⟨m, hm, rfl⟩ := (ih x hx).mp hn
      exact ⟨m, ⟨x, hx, hm⟩, rfl⟩
    · rintro ⟨m, ⟨x, hx, hm⟩, rfl⟩
      exact ⟨x, hx, (ih x hx).mpr ⟨m, hm, rfl⟩⟩

end

section

variable [DecidableEq β]

/-- The child under a field, if the field is set. -/
def get? (t : Tree α β) (f : β) : Option (Tree α β) := (t.children.find? fun x => x.1 = f).map Prod.snd

/-- The children under a repeated field. -/
def getAll (t : Tree α β) (f : β) : List (Tree α β) := (t.children.filter fun x => x.1 = f).map Prod.snd

end

end Tree

end GoErp.Lib
