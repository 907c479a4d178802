import Mathlib.Data.Int.Interval
import GoErp.Db.Batch

/-!
# `Db.Renumber` — placeholders under new numbers

`renumberParamsFrom` (`wasm/host_db_exec_audit.go`) numbers the placeholders of a cloned `WHERE` clause from `base +
1` on, in the order in which the walk comes upon them, which is a parameter here. Any order gives a clone that means
the same, with the parameters in their new places (`renumber_preserves`).
-/

namespace GoErp.Db

open Lib PgQuery List

def paramNumber? : Msg → Option Int
  | .paramRef n => some n
  | _ => none

/-- The numbers of the placeholders of a tree. A placeholder has no messages under it. -/
def paramRefs (node : Node) : List Int := node.nodes.filterMap fun n => paramNumber? n.label

/-- A conversion to `int32`. -/
def int32 (x : Int) : Int := x.bmod (2 ^ 32)

/-- `parameter $%d has no corresponding value (%d supplied)` -/
structure ParamError where
  number : Int
  supplied : Nat

/-- The value of `$n`. -/
def valueOf (params : List GoValue) (n : Int) : GoValue := params.getD (n - 1).toNat .nil

/-- `seen` and `newParams` grow together. They are kept as the numbers in the order in which they were first seen. -/
def visitParam (params : List GoValue) (seen : List Int) (n : Int) : Except ParamError (List Int) :=
  if n < 1 ∨ (params.length : Int) < n then .error ⟨n, params.length⟩
  else if n ∈ seen then .ok seen
  else .ok (seen ++ [n])

/-- `seen[n]`: the base and the number of new parameters when `n` was added. -/
def newNumber (base : Int) (seen : List Int) (n : Int) : Int := int32 (base + (seen.idxOf n + 1))

def setNumber (base : Int) (seen : List Int) : Msg → Msg
  | .paramRef n => .paramRef (newNumber base seen n)
  | m => m

/-- `renumberParamsFrom`; `visit` are the numbers in the order of the walk. -/
def renumberParamsFrom (visit : List Int) (node : Option Node) (params : List GoValue) (base : Int) :
    Except ParamError (Option Node × List GoValue) :=
  match node with
  | none => .ok (none, [])
  | some node =>
    match visit.foldlM (visitParam params) [] with
    | .error e => .error e
    | .ok seen => .ok (some (node.map (setNumber base seen)), seen.map (valueOf params))

def maxAuditPreReadChunkWeight : Nat := 5000

/-- A query of `captureRowsBeforeExecBatch`: the conditions of its branches, each with its tag, and the parameters. -/
structure Chunk where
  branches : List (Nat × Option Node)
  chunkParams : List GoValue

/-- The branch of the set `i`, put into a chunk. -/
def Chunk.add (visit : Nat → List Int) (w : Option Node) (c : Chunk) (i : Nat) (params : List GoValue) :
    Except ParamError Chunk :=
  match renumberParamsFrom (visit i) w params (int32 c.chunkParams.length) with
  | .error e => .error e
  | .ok (node, rowParams) => .ok ⟨c.branches ++ [(i, node)], c.chunkParams ++ rowParams⟩

/-- The two loops of `captureRowsBeforeExecBatch`, from the set `i` on, with the chunk that is being filled. -/
def chunks (visit : Nat → List Int) (w : Option Node) : Chunk → Nat → Nat → List (List GoValue) →
    Except ParamError (List Chunk)
  | c, _, _, [] => .ok (if c.branches = [] then [] else [c])
  | c, weight, i, params :: rest =>
    if c.branches ≠ [] ∧ maxAuditPreReadChunkWeight < weight + params.length then do
      let c' ← Chunk.add visit w ⟨[], []⟩ i params
      let cs ← chunks visit w c' params.length (i + 1) rest
      .ok (c :: cs)
    else do
      let c' ← c.add visit w i params
      chunks visit w c' (weight + params.length) (i + 1) rest

/-! ## What a clone is to be -/

/-- A tree with the values of its placeholders in place of them: all that an evaluation can depend on. -/
def bound (params : List GoValue) (node : Node) : Tree (Msg ⊕ GoValue) Field :=
  node.map fun m => ((paramNumber? m).map (valueOf params)).elim (.inl m) .inr

structure Renumbered (node : Node) (params : List GoValue) (base : Int) (clone : Node) (newParams : List GoValue) :
    Prop where
  placeholders : ∀ k, k ∈ paramRefs clone ↔ base < k ∧ k ≤ base + newParams.length
  once : ∃ seen : List Int, seen.Nodup ∧ (∀ n, n ∈ seen ↔ n ∈ paramRefs node) ∧ newParams = seen.map (valueOf params)
  same : ∀ before after, (before.length : Int) = base →
    bound (before ++ newParams ++ after) clone = bound params node

/-! ## The walk -/

variable {params : List GoValue} {base : Int} {seen : List Int} {node : Node}

/-- The walk ends with all numbers seen, or at one that has no value. -/
theorem visitParam_cases (params : List GoValue) (hseen : seen.Nodup) (visit : List Int) :
    (∃ e, visit.foldlM (visitParam params) seen = .error e ∧ ∃ n ∈ visit, n < 1 ∨ (params.length : Int) < n) ∨
    ∃ seen', visit.foldlM (visitParam params) seen = .ok seen' ∧ seen'.Nodup ∧ (∀ n, n ∈ seen' ↔ n ∈ seen ∨ n ∈ visit) ∧
      ∀ n ∈ visit, 1 ≤ n ∧ n ≤ params.length := by
  induction visit generalizing seen with
  | nil => exact .inr ⟨seen, rfl, hseen, by simp, nofun⟩
  | cons n visit ih =>
    rw [foldlM_cons, visitParam]
    by_cases hbad : n < 1 ∨ (params.length : Int) < n
    · rw [if_pos hbad]
      exact .inl ⟨_, rfl, n, mem_cons_self, hbad⟩
    have hnext : ∃ next, (if n ∈ seen then Except.ok seen else .ok (seen ++ [n]) : Except ParamError _) = .ok next ∧
        next.Nodup ∧ ∀ m, m ∈ next ↔ m ∈ seen ∨ m = n := by
      by_cases hn : n ∈ seen
      · exact ⟨seen, if_pos hn, hseen, by grind⟩
      · exact ⟨seen ++ [n], if_neg hn, nodup_append.mpr ⟨hseen, nodup_singleton n, by grind⟩, by simp⟩
    obtain ⟨next, heq, hnodup, hmem⟩ := hnext
    rw [if_neg hbad, heq]
    rcases ih hnodup with ⟨e, he, m, hm, hm'⟩ | ⟨seen', hok, hnodup', hmem', hvalid⟩
    · exact .inl ⟨e, he, m, mem_cons_of_mem n hm, hm'⟩
    · refine .inr ⟨seen', hok, hnodup', fun m => ?_, forall_mem_cons.mpr ⟨by omega, hvalid⟩⟩
      rw [hmem', hmem, mem_cons, or_assoc]

theorem int32_of_lt {x : Int} (hlow : 0 ≤ x) (hhigh : x < 2 ^ 31) : int32 x = x :=
  Int.bmod_eq_of_le (by omega) (by omega)

theorem paramNumber?_setNumber (m : Msg) :
    paramNumber? (setNumber base seen m) = (paramNumber? m).map (newNumber base seen) := by
  cases m <;> rfl

theorem mem_paramRefs {n : Int} : n ∈ paramRefs node ↔ ∃ m ∈ node.nodes, paramNumber? m.label = some n :=
  mem_filterMap

/-- The placeholders of a clone are the new numbers of those of the tree. -/
theorem mem_paramRefs_map {k : Int} :
    k ∈ paramRefs (node.map (setNumber base seen)) ↔ ∃ n ∈ paramRefs node, newNumber base seen n = k := by
  have hlabel : ∀ m : Node, (m.map (setNumber base seen)).label = setNumber base seen m.label := by
    rintro ⟨l, cs⟩
    rfl
  simp only [mem_paramRefs, Tree.mem_nodes_map]
  constructor
  · rintro ⟨_, ⟨m, hm, rfl⟩, hk⟩
    rw [hlabel, paramNumber?_setNumber] at hk
    obtain ⟨n, hn, rfl⟩ := Option.map_eq_some_iff.mp hk
    exact ⟨n, ⟨m, hm, hn⟩, rfl⟩
  · rintro ⟨n, ⟨m, hm, hn⟩, rfl⟩
    exact ⟨_, ⟨m, hm, rfl⟩, by rw [hlabel, paramNumber?_setNumber, hn]; rfl⟩

/-- Without an overflow the numbers seen number a tree as it is to be. -/
theorem renumbered_of_seen (hseen : seen.Nodup) (hmem : ∀ n, n ∈ seen ↔ n ∈ paramRefs node) (hbase : 0 ≤ base)
    (hfit : base + seen.length < 2 ^ 31) :
    Renumbered node params base (node.map (setNumber base seen)) (seen.map (valueOf params)) := by
  have hnew : ∀ n ∈ seen, newNumber base seen n = base + (seen.idxOf n + 1) := fun n hn => by
    have hlt := idxOf_lt_length_of_mem hn
    exact int32_of_lt (by omega) (by omega)
  refine ⟨fun k => ?_, ⟨seen, hseen, hmem, rfl⟩, fun before after hbefore => ?_⟩
  · rw [mem_paramRefs_map, length_map]
    constructor
    · rintro ⟨n, hn, rfl⟩
      have hlt := idxOf_lt_length_of_mem ((hmem n).mpr hn)
      rw [hnew n ((hmem n).mpr hn)]
      omega
    rintro ⟨hlow, hhigh⟩
    have hlt : (k - base - 1).toNat < seen.length := by omega
    refine ⟨seen[(k - base - 1).toNat], (hmem _).mp (getElem_mem hlt), ?_⟩
    rw [hnew _ (getElem_mem hlt), hseen.idxOf_getElem _ hlt]
    omega
  · unfold bound
    rw [Tree.map_map]
    refine Tree.map_congr fun m hm => ?_
    rw [Function.comp_apply, paramNumber?_setNumber]
    cases hnum : paramNumber? m.label with
    | none => cases hl : m.label <;> rw [hl] at hnum <;> first | rfl | cases hnum
    | some n =>
      have hn := (hmem n).mpr (mem_paramRefs.mpr ⟨m, hm, hnum⟩)
      have hlt := idxOf_lt_length_of_mem hn
      have hplace : (newNumber base seen n - 1).toNat = before.length + seen.idxOf n := by
        rw [hnew n hn]
        omega
      dsimp only [Option.map_some, Option.elim_some]
      rw [valueOf, hplace, getD_eq_getElem?_getD, append_assoc, getElem?_append_right (by omega),
        Nat.add_sub_cancel_left, getElem?_append_left (by simpa using hlt), getElem?_map,
        getElem?_eq_getElem hlt, getElem_idxOf hlt]
      rfl

/-- Distinct numbers up to `m` are at most `m`. -/
theorem length_le_of_nodup {m : Nat} (hseen : seen.Nodup) (h : ∀ n ∈ seen, 1 ≤ n ∧ n ≤ m) : seen.length ≤ m := by
  have hsub : seen.toFinset ⊆ Finset.Icc 1 (m : Int) := fun n hn => Finset.mem_Icc.mpr (h n (mem_toFinset.mp hn))
  have hcard := Finset.card_le_card hsub
  rw [toFinset_card_of_nodup hseen, Int.card_Icc] at hcard
  omega

/-- The two results of `renumberParamsFrom`. -/
theorem renumberParamsFrom_cases {visit : List Int} (hvisit : visit.Perm (paramRefs node)) (params : List GoValue)
    (hbase : 0 ≤ base) : (∃ e, renumberParamsFrom visit (some node) params base = .error e ∧
      ∃ n ∈ paramRefs node, n < 1 ∨ (params.length : Int) < n) ∨
    ∃ clone newParams, renumberParamsFrom visit (some node) params base = .ok (some clone, newParams) ∧
      (∀ n ∈ paramRefs node, 1 ≤ n ∧ n ≤ params.length) ∧
      (∀ m : Nat, (∀ n ∈ paramRefs node, n ≤ m) → newParams.length ≤ m) ∧
      (base + newParams.length < 2 ^ 31 → Renumbered node params base clone newParams) := by
  unfold renumberParamsFrom
  rcases visitParam_cases params nodup_nil visit with ⟨e, he, n, hn, hbad⟩ | ⟨seen, hok, hseen, hmem, hvalid⟩
  · exact .inl ⟨e, by rw [he], n, hvisit.mem_iff.mp hn, hbad⟩
  have hrefs : ∀ n, n ∈ seen ↔ n ∈ paramRefs node := fun n => by
    rw [hmem, ← hvisit.mem_iff, or_iff_right not_mem_nil]
  have hvalid : ∀ n ∈ paramRefs node, 1 ≤ n ∧ n ≤ params.length := fun n hn => hvalid n (hvisit.mem_iff.mpr hn)
  refine .inr ⟨_, _, by rw [hok], hvalid, fun m hm => ?_, fun hfit => ?_⟩
  · rw [length_map]
    exact length_le_of_nodup hseen fun n hn => ⟨(hvalid n ((hrefs n).mp hn)).1, hm n ((hrefs n).mp hn)⟩
  · rw [length_map] at hfit
    exact renumbered_of_seen hseen hrefs hbase hfit

/-! ## Chunks -/

/-- The conditions of branches, with the parameters put in. -/
def boundBranches (params : List GoValue) (branches : List (Nat × Option Node)) :
    List (Nat × Option (Tree (Msg ⊕ GoValue) Field)) :=
  branches.map fun b => (b.1, b.2.map (bound params))

/-- The conditions that the parameter sets ask for, from the tag `i` on. -/
def asked (node : Node) (i : Nat) (sets : List (List GoValue)) : List (Nat × Option (Tree (Msg ⊕ GoValue) Field)) :=
  (sets.zipIdx i).map fun x => (x.2, some (bound x.1 node))

section

variable {visit : Nat → List Int} (hvisit : ∀ i, (visit i).Perm (paramRefs node))
  (hint : ∀ n ∈ paramRefs node, n < 2 ^ 31) {c c' : Chunk} {weight i : Nat}

include hvisit hint

/-- A new branch is right whatever parameters follow. -/
theorem Chunk.add_ok (hweight : c.chunkParams.length ≤ weight)
    (hsmall : c.chunkParams = [] ∨ weight + params.length ≤ maxAuditPreReadChunkWeight)
    (h : c.add visit (some node) i params = .ok c') :
    ∃ clone rowParams, c'.branches = c.branches ++ [(i, some clone)] ∧ c'.chunkParams = c.chunkParams ++ rowParams ∧
      c'.chunkParams.length ≤ weight + params.length ∧
        ∀ after, bound (c'.chunkParams ++ after) clone = bound params node := by
  have hlength : c.chunkParams.length = 0 ∨ weight + params.length ≤ 5000 :=
    hsmall.imp_left fun hnil => by rw [hnil]; rfl
  unfold Chunk.add at h
  rw [int32_of_lt (Int.natCast_nonneg _) (by omega)] at h
  rcases renumberParamsFrom_cases (hvisit i) params (Int.natCast_nonneg c.chunkParams.length) with
    ⟨e, he, -⟩ | ⟨clone, rowParams, hok, hvalid, hlen, hclone⟩
  · rw [he] at h
    cases h
  rw [hok] at h
  cases h
  have hrow : rowParams.length ≤ params.length := hlen _ fun n hn => (hvalid n hn).2
  have hrefs : rowParams.length ≤ 2 ^ 31 - 1 := hlen _ fun n hn => Int.le_sub_one_of_lt (hint n hn)
  exact ⟨clone, rowParams, rfl, rfl, by rw [length_append]; omega,
    fun after => (hclone (by omega)).same c.chunkParams after rfl⟩

/-- A branch for each set; those that are there stay right. -/
theorem chunks_ok {sets : List (List GoValue)} {cs : List Chunk} (hweight : c.chunkParams.length ≤ weight)
    (hempty : c.branches = [] → c.chunkParams = []) (h : chunks visit (some node) c weight i sets = .ok cs) :
    ∃ extra, cs.flatMap (fun c => boundBranches c.chunkParams c.branches) =
      boundBranches (c.chunkParams ++ extra) c.branches ++ asked node i sets := by
  induction sets generalizing c weight i cs with
  | nil =>
    cases h
    refine ⟨[], ?_⟩
    split <;> simp [boundBranches, asked, *]
  | cons params rest ih =>
    rw [chunks] at h
    split at h
    · obtain ⟨c', hadd, h⟩ := bind_eq_ok.mp h
      obtain ⟨cs', hrest, h⟩ := bind_eq_ok.mp h
      cases h
      obtain ⟨clone, rowParams, hbranches, -, hlen, hbound⟩ :=
        Chunk.add_ok hvisit hint (Nat.zero_le 0) (.inl rfl) hadd
      obtain ⟨extra, heq⟩ := ih (by omega) (by simp [hbranches]) hrest
      refine ⟨[], ?_⟩
      rw [flatMap_cons, heq, hbranches, append_nil]
      simp [boundBranches, asked, hbound, zipIdx_cons]
    · rename_i hfits
      have hsmall : c.chunkParams = [] ∨ weight + params.length ≤ maxAuditPreReadChunkWeight := by
        by_cases hb : c.branches = []
        · exact .inl (hempty hb)
        · exact .inr (Nat.le_of_not_lt fun hlt => hfits ⟨hb, hlt⟩)
      obtain ⟨c', hadd, h⟩ := bind_eq_ok.mp h
      obtain ⟨clone, rowParams, hbranches, hparams, hlen, hbound⟩ := Chunk.add_ok hvisit hint hweight hsmall hadd
      obtain ⟨extra, heq⟩ := ih hlen (by simp [hbranches]) h
      refine ⟨rowParams ++ extra, ?_⟩
      rw [heq, hbranches, ← append_assoc, ← hparams]
      simp [boundBranches, asked, hbound, zipIdx_cons]

end

/-- **A clone means what the clause does**, in whatever order the walk visits, as long as its numbers are `int32`
numbers; and the branches of a chunk share its parameters. -/
theorem renumber_preserves (node : Node) (visit : Nat → List Int) (hvisit : ∀ i, (visit i).Perm (paramRefs node))
    (hint : ∀ n ∈ paramRefs node, n < 2 ^ 31) : (∀ i params (base : Nat),
      match renumberParamsFrom (visit i) (some node) params base with
      | .error _ => ∃ n ∈ paramRefs node, n < 1 ∨ (params.length : Int) < n
      | .ok (clone, newParams) => (∀ n ∈ paramRefs node, 1 ≤ n ∧ n ≤ params.length) ∧
          (base + newParams.length < 2 ^ 31 → ∃ c, clone = some c ∧ Renumbered node params base c newParams)) ∧
    ∀ paramSets cs, chunks visit (some node) ⟨[], []⟩ 0 0 paramSets = .ok cs →
      cs.flatMap (fun c => boundBranches c.chunkParams c.branches) = asked node 0 paramSets := by
  refine ⟨fun i params base => ?_, fun paramSets cs h => ?_⟩
  · rcases renumberParamsFrom_cases (hvisit i) params (Int.natCast_nonneg base) with
      ⟨e, he, hbad⟩ | ⟨clone, newParams, hok, hvalid, -, hclone⟩
    · rw [he]
      exact hbad
    · rw [hok]
      exact ⟨hvalid, fun hfit => ⟨clone, rfl, hclone (by omega)⟩⟩
  · obtain ⟨extra, heq⟩ := chunks_ok hvisit hint (Nat.zero_le 0) (fun _ => rfl) h
    exact heq

/-- `$n` -/
def placeholder (n : Int) : Node := .mk (.paramRef n) []

/-- Two rows, for `$2 = $1` with the right side visited first. -/
theorem renumber_preserves_pair :
    let node : Node := .mk (.aExpr true) [(.lexpr, placeholder 2), (.rexpr, placeholder 1)]
    let sets : List (List GoValue) := [[.str "a", .str "b"], [.str "c", .str "d"]]
    ∃ cs, chunks (fun _ => [1, 2]) (some node) ⟨[], []⟩ 0 0 sets = .ok cs ∧
      cs.flatMap (fun c => boundBranches c.chunkParams c.branches) = asked node 0 sets := by
  intro node sets
  exact ⟨_, rfl, (renumber_preserves node (fun _ => [1, 2]) (fun _ => .swap 2 1 []) (by decide)).2 _ _ rfl⟩

/-- **The numbers are `int32`**: after the greatest one comes the least. -/
theorem renumber_overflows : ∃ clone newParams,
    renumberParamsFrom [1] (some (placeholder 1)) [.nil] (2 ^ 31 - 1) = .ok (some clone, newParams) ∧
      ¬ Renumbered (placeholder 1) [.nil] (2 ^ 31 - 1) clone newParams := by
  refine ⟨_, _, rfl, fun h => ?_⟩
  have hin := (h.placeholders (-2 ^ 31)).mp (by decide)
  omega

end GoErp.Db
