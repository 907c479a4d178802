import GoErp.Lib.PathForest
import GoErp.Orm.Tree

/-!
# `Orm.TreeForest` — the forests of a tree table

For every tree field the active rows of the table form a forest with stored paths (`forestOf`). This module states
what the engine promises of it (`TreePaths`), the invariant behind the promise (`TreeInv`), the calls that leave
the engine's columns to the engine (`PathSafe`), and reads the operations of `Orm.Tree` on columns and lookups as
facts about the forests.
-/

namespace GoErp.Orm

open Lib List

section

variable (env : Env) (tm : TreeModel)

/-! ## The invariant -/

/-- The forest of the active rows by a tree field. -/
def TreeModel.forestOf (f : String) (t : Rows) : Forest String String := fun k =>
  (t.get? k).bind fun r => if tm.active r then some (parentOf r f, pathOf r f) else none

/-- Links and paths of a tree field, as the engine promises them for active rows whose parent is active. -/
structure TreeModel.TreePaths (f : String) (t : Rows) : Prop where
  acyclic : ∀ k, ¬ Relation.TransGen (Forest.Link (tm.forestOf f t)) k k
  root : ∀ k r, t.get? k = some r → tm.active r = true → parentOf r f = none → pathOf r f = [ltreeLabel k]
  child : ∀ k r p q, t.get? k = some r → tm.active r = true → parentOf r f = some p → t.get? p = some q →
    tm.active q = true → pathOf r f = pathOf q f ++ [ltreeLabel k]

/-- Rows are stored under their canonical keys, and foreign keys hold. -/
structure TreeModel.Keyed (t : Rows) : Prop where
  key : ∀ {k r}, t.get? k = some r → tm.keyOf r = some k ∧ env.keys.parse k = some k
  fk : ∀ {k r f p}, t.get? k = some r → f ∈ tm.treeFields → parentOf r f = some p → (t.get? p).isSome = true

/-- The invariant of the table: each tree field's paths agree with its links, where the path of every active row
    ends in its own label. -/
structure TreeModel.TreeInv (t : Rows) : Prop extends tm.Keyed env t where
  paths : ∀ {f}, f ∈ tm.treeFields → Forest.PathInv ltreeLabel (tm.forestOf f t)

/-- Nothing of the columns is lost on the way to the statement. -/
def TreeModel.Kept (call : Call) (c : String) : Prop := dropped tm.md call.denied c = false

/-- A record that names neither the key nor a path column, and moves rows by their canonical keys. -/
def TreeModel.WriteSafe (call : Call) (ids : List String) (record : Record) : Prop :=
  record.get? tm.pkCol = none ∧
  ∀ f ∈ tm.treeFields, record.get? (pathCol f) = none ∧
    (record.get? f ≠ none → tm.Kept call f ∧ ∀ id ∈ ids, env.keys.parse id = some id)

/-- A record that spells its key canonically and whose tree columns all reach the new row. -/
structure TreeModel.CreateSafe (call : Call) (record : Record) : Prop where
  genPK : env.keys.parse call.genPK = some call.genPK
  pk : ∀ {s}, record.get? tm.pkCol = some (.text s) → env.keys.parse s = some s
  kept : ∀ {c}, c = tm.pkCol ∨ c ∈ tm.treeFields ∨ c ∈ tm.treeFields.map pathCol → tm.Kept call c
  noDefault : ∀ {f}, f ∈ tm.treeFields → record.get? f = none → tm.defaultRow call.dbPK f = .null

/-- The create updates no stored row. -/
def TreeModel.Inserts (t : Rows) (call : Call) (record : Record) (onConflict : Option OnConflict) : Prop :=
  ∀ oc, onConflict = some oc → oc.policy = .update → ∀ assigned row filled,
    tm.prepareCreate env t call record = .ok (assigned, row, filled) → conflictRow t row oc.fields = none

/-- A call that leaves the engine's columns to the engine: a create inserts and spells its key canonically; a
    write names neither the key nor a path column, and moves a row by the canonical spelling of its key; a hard
    delete sets no parent to null. Fields the caller may not write are not silently dropped. -/
def TreeModel.PathSafe (t : Rows) : Op → Prop
  | .create call record onConflict => tm.CreateSafe env call record ∧ tm.Inserts env t call record onConflict
  | .write call id record _ => tm.WriteSafe env call [id] record
  | .writeMany call ids record => tm.WriteSafe env call ids record
  | .unlink _ _ => tm.md.hasField "deleted_at" = true ∨ tm.treeFieldsWith .setNull = []

end


/-! ## The columns of the tree -/

section

variable {env : Env} {tm : TreeModel} {f : String}

theorem pathCol_inj {g : String} (h : pathCol f = pathCol g) : f = g := by
  have hlist := congrArg String.toList h
  rw [pathCol, pathCol, String.toList_append, String.toList_append] at hlist
  exact String.toList_inj.mp (append_cancel_right hlist)

theorem TreeModel.pkField (tm : TreeModel) : ∃ f ∈ tm.md.fields, f.isPrimaryKey = true ∧ f.name = tm.pkCol := by
  obtain ⟨f, hf, hname⟩ := Option.map_eq_some_iff.mp tm.hasPk
  exact ⟨f, mem_of_find?_eq_some hf, find?_some hf, hname⟩

theorem refKey_eq_some {v : Value} {k : String} : refKey v = some k ↔ v = .text k := by
  cases v <;> simp [refKey]

theorem mem_treeFields : f ∈ tm.treeFields ↔ ∃ g ∈ tm.md.fields, g.isTree = true ∧ g.name = f := by
  simp [TreeModel.treeFields, Model.treeFields, and_assoc]

variable {g : Field}

/-- A path column is no declared field. -/
theorem pathCol_notField (hf : f ∈ tm.treeFields) (hg : g ∈ tm.md.fields) : pathCol f ≠ g.name := by
  intro heq
  have hdisj := (nodup_append.mp tm.distinct).2.2
  exact hdisj g.name (mem_map_of_mem hg) (pathCol f) (mem_map_of_mem hf) heq.symm

theorem pathCol_ne_tree {g : String} (hf : f ∈ tm.treeFields) (hg : g ∈ tm.treeFields) : pathCol f ≠ g := by
  obtain ⟨g', hg', -, rfl⟩ := mem_treeFields.mp hg
  exact pathCol_notField hf hg'

theorem pathCol_ne_pk (hf : f ∈ tm.treeFields) : pathCol f ≠ tm.pkCol := by
  obtain ⟨g, hg, -, hname⟩ := tm.pkField
  rw [← hname]
  exact pathCol_notField hf hg

/-- Fields of one name are one field. -/
theorem field_unique {f : Field} (hf : f ∈ tm.md.fields) (hg : g ∈ tm.md.fields) (h : f.name = g.name) : f = g :=
  inj_on_of_nodup_map (nodup_append.mp tm.distinct).1 hf hg h

theorem pk_notMem_tree : tm.pkCol ∉ tm.treeFields := by
  intro hmem
  obtain ⟨g, hg, htree, hname⟩ := mem_treeFields.mp hmem
  obtain ⟨p, hp, hpk, hpname⟩ := tm.pkField
  have heq : g = p := field_unique hg hp (hname.trans hpname.symm)
  have hkind := tm.treeKind g hg htree
  rw [heq, tm.pkKind p hp hpk] at hkind
  cases hkind

theorem tree_ne_pk (hf : f ∈ tm.treeFields) : f ≠ tm.pkCol := fun heq => pk_notMem_tree (heq ▸ hf)

/-- A column of the tree: the primary key, a tree field or its path. -/
def TreeModel.TreeCol (tm : TreeModel) (c : String) : Prop :=
  c = tm.pkCol ∨ ∃ f ∈ tm.treeFields, c = f ∨ c = pathCol f

variable {c : String}

theorem TreeModel.TreeCol.notEngine (h : tm.TreeCol c) : c ∉ engineColumns := by
  rcases h with hpk | ⟨f, hf, hname | hpath⟩
  · rw [hpk]
    exact tm.reserved.1
  · rw [hname]
    exact (tm.reserved.2 f hf).1
  · rw [hpath]
    exact (tm.reserved.2 f hf).2

theorem TreeModel.TreeCol.ne_of_engine {c' : String} (h : tm.TreeCol c) (hc' : c' ∈ engineColumns) : c ≠ c' :=
  fun heq => h.notEngine (heq ▸ hc')

theorem treeCol_pk : tm.TreeCol tm.pkCol := .inl rfl

theorem treeCol_field (hf : f ∈ tm.treeFields) : tm.TreeCol f := .inr ⟨f, hf, .inl rfl⟩

theorem treeCol_path (hf : f ∈ tm.treeFields) : tm.TreeCol (pathCol f) := .inr ⟨f, hf, .inr rfl⟩

/-- No column of the tree is a sequence. -/
theorem TreeModel.TreeCol.notSequence (h : tm.TreeCol c) (hg : g ∈ tm.md.fields) (hkind : g.kind = .sequence) :
    c ≠ g.name := by
  rintro rfl
  rcases h with hpk | ⟨f, hf, hname | hpath⟩
  · obtain ⟨p, hp, hispk, hpname⟩ := tm.pkField
    rw [field_unique hg hp (hpk.trans hpname.symm), tm.pkKind p hp hispk] at hkind
    cases hkind
  · obtain ⟨f', hf', htree, hfname⟩ := mem_treeFields.mp hf
    rw [field_unique hg hf' (hname.trans hfname.symm), tm.treeKind f' hf' htree] at hkind
    cases hkind
  · exact pathCol_notField hf hg hpath.symm

theorem coerce_pk (v : Value) : tm.coerce env tm.pkCol v = keyValue env.keys v := if_pos (.inl rfl)

theorem coerce_field (hf : f ∈ tm.treeFields) (v : Value) : tm.coerce env f v = keyValue env.keys v := if_pos (.inr hf)

theorem coerce_path (hf : f ∈ tm.treeFields) (v : Value) : tm.coerce env (pathCol f) v = ltreeValue v := by
  rw [TreeModel.coerce, if_neg, if_pos (mem_map_of_mem hf)]
  rintro (hpk | htree)
  · exact pathCol_ne_pk hf hpk
  · exact pathCol_ne_tree hf htree rfl

/-- Each column of a stored row is the assigned value or the one it had. -/
theorem storeCols_ok {base row : Row} {assigned : List (String × Value)}
    (h : tm.storeCols env base assigned = .ok row) (c : String) : match Record.get? assigned c with
    | none => row c = base c
    | some v => tm.coerce env c v = some (row c) := by
  induction assigned generalizing row with
  | nil =>
    cases h
    rfl
  | cons x rest ih =>
    obtain ⟨row', hrest, h⟩ := bind_eq_ok.mp h
    split at h
    · cases h
    rename_i w hw
    cases h
    rw [Record.get?_cons]
    by_cases hx : x.1 = c
    · subst hx
      rw [if_pos rfl, Row.set_self]
      exact hw
    · rw [if_neg hx, Row.set_of_ne _ _ (Ne.symm hx)]
      exact ih hrest

end


/-! ## The forest of a table -/

section

variable {env : Env} {tm : TreeModel} {t : Rows} {f : String} {k : String}

theorem forestOf_eq_some {p : Option String} {path : List String} : tm.forestOf f t k = some (p, path) ↔
      ∃ r, t.get? k = some r ∧ tm.active r = true ∧ parentOf r f = p ∧ pathOf r f = path := by
  unfold TreeModel.forestOf
  cases t.get? k with
  | none => simp
  | some r => by_cases hr : tm.active r = true <;> simp [hr]

theorem forestOf_insert (k : String) (row : Row) (j : String) : tm.forestOf f (t.insert k row) j =
      if j = k then (if tm.active row then some (parentOf row f, pathOf row f) else none)
      else tm.forestOf f t j := by
  unfold TreeModel.forestOf
  rw [Table.get?_insert]
  by_cases hj : j = k
  · rw [if_pos hj, if_pos hj]
    rfl
  · rw [if_neg hj, if_neg hj]

/-- A path that is read is the path of a node. -/
theorem lookupTreePath_ok {v : Value} {path : List String} (h : tm.lookupTreePath env t f v = .ok path)
    (hne : path ≠ []) : ∃ p q, keyValue env.keys v = some (.text p) ∧ tm.forestOf f t p = some (q, path) := by
  unfold TreeModel.lookupTreePath at h
  split at h
  · cases h
  · rename_i p hp
    split at h
    · rename_i r hr
      have hpath := Except.ok.inj h
      by_cases hact : tm.active r = true
      · rw [if_pos hact] at hpath
        exact ⟨p, _, hp, forestOf_eq_some.mpr ⟨r, hr, hact, rfl, hpath⟩⟩
      · rw [if_neg hact] at hpath
        exact absurd hpath.symm hne
    · exact absurd (Except.ok.inj h).symm hne
  · exact absurd (Except.ok.inj h).symm hne

/-- Reading by the text of a key reads the node of that key. -/
theorem lookupTreePath_text {id : String} (hk : env.keys.parse id = some k) :
    tm.lookupTreePath env t f (.text id) = .ok (((tm.forestOf f t k).map Prod.snd).getD []) := by
  unfold TreeModel.lookupTreePath TreeModel.forestOf
  rw [show keyValue env.keys (.text id) = some (.text k) by rw [keyValue, hk]; rfl]
  dsimp only
  cases hr : t.get? k with
  | none => rfl
  | some r => by_cases hact : tm.active r = true <;> simp [hact]

theorem pathOf_set_self (r : Row) (path : List String) : pathOf (r.set (pathCol f) (.ltree path)) f = path := by
  unfold pathOf
  rw [Row.set_self]

theorem fkOk_iff {r : Row} :
    tm.fkOk t r = true ↔ ∀ f ∈ tm.treeFields, ∀ p, parentOf r f = some p → (t.get? p).isSome = true := by
  unfold TreeModel.fkOk
  rw [all_eq_true]
  refine forall₂_congr fun f _ => ?_
  cases parentOf r f <;> simp

/-- A well-keyed row put into the table. -/
theorem TreeModel.Keyed.insert (h : tm.Keyed env t) {row : Row} (hkey : tm.keyOf row = some k)
    (hcanon : env.keys.parse k = some k) (hfk : tm.fkOk (t.insert k row) row = true) :
    tm.Keyed env (t.insert k row) := by
  have hmono : ∀ p, (t.get? p).isSome = true → ((t.insert k row).get? p).isSome = true := by
    intro p hp
    rw [Table.get?_insert]
    split
    · rfl
    · exact hp
  refine ⟨fun {j r} hj => ?_, fun {j r f p} hj hf hp => ?_⟩
  · rw [Table.get?_insert] at hj
    split at hj
    · rename_i heq
      cases hj
      exact ⟨heq ▸ hkey, heq ▸ hcanon⟩
    · exact h.key hj
  · rw [Table.get?_insert] at hj
    split at hj
    · cases hj
      exact fkOk_iff.mp hfk f hf p hp
    · exact hmono p (h.fk hj hf hp)

end

end GoErp.Orm
