import GoErp.Orm.Model
import Mathlib.Data.List.Dedup
import Mathlib.Data.List.Nodup
import Mathlib.Data.List.Perm.Basic

/-!
# `Orm.Pivot` — aggregates by `GROUP BY ROLLUP`

`ORMPivot` (`wasm/host_orm.go`): the checks of a request, the groups that `ROLLUP` of the row fields crossed with
`ROLLUP` of the column fields produces, and the cells the groups become. A group fixes the first fields of each axis
and rolls up the others. A result row is read into a map by column name, so of two columns of one name the last
counts; `cell_eq` is for columns with different names.
-/

namespace GoErp.Pivot

open Lib Orm List

/-! ## Requests -/

/-- A value of a column, `N` for the numbers; `NULL` is `none`. -/
inductive Scalar (N : Type) where
  | str (s : String)
  | num (n : N)
  | bool (b : Bool)
  deriving DecidableEq, Repr

abbrev PivotRow (N : Type) := String → Option (Scalar N)

structure PivotValue where
  field : String
  aggregation : String
  deriving DecidableEq, Repr

structure ORMPivotInput where
  model : String
  domain : String
  rows : List String
  columns : List String
  values : List PivotValue

inductive PivotErrorCode where
  | capabilityDenied | modelNotFound | transientNotListable | validationFailed | fieldUnknown | fieldReadDenied
  | queryError
  deriving DecidableEq, Repr

structure PivotError where
  code : PivotErrorCode
  message : String
  details : Option (String × String) := none
  deriving DecidableEq, Repr

/-- A result row: the numbers of fields it fixes on each axis, and the values it fixes them to. -/
structure Group (N : Type) where
  rowDepth : Nat
  columnDepth : Nat
  key : List (Option (Scalar N))
  deriving DecidableEq, Repr

/-- The engine and the database, as one caller sees them. -/
structure PivotEngine (N : Type) where
  canRead : Bool
  /-- `resolveReadableModel` -/
  model : String → Option Model
  transient : Model → Bool
  /-- the permission that a field asks of its readers, if the caller does not have it -/
  denied : String → String → Option String
  compileDomain : String → Model → Except PivotError (PivotRow N → Bool)
  /-- `resolveORMReadTx` -/
  readTx : Except PivotError Unit
  table : Model → List (PivotRow N)
  /-- an aggregate function on the values of its field -/
  aggregate : String → List (Option (Scalar N)) → Option (Scalar N)
  /-- what Postgres makes of a name: the first 63 bytes -/
  label : String → String
  /-- the order in which Postgres returns the groups -/
  order : List (Group N) → List (Group N)
  order_perm : ∀ groups, (order groups).Perm groups

/-- `aggregateSQLFuncs` -/
def aggregateSQLFuncs : List (String × String) :=
  [("sum", "SUM"), ("count", "COUNT"), ("avg", "AVG"), ("min", "MIN"), ("max", "MAX")]

/-- `isNumericKind` -/
def isNumericKind (kind : FieldKind) : Bool := kind ∈ [FieldKind.integer, .bigInt, .float, .decimal]

/-- `FieldKind.String`, of the relations. -/
def relationName : FieldKind → String
  | .one2Many => "one2many"
  | .many2Many => "many2many"
  | _ => "file_multi"

/-- The alias of an aggregate. -/
def PivotValue.alias (v : PivotValue) : String := v.field ++ "_" ++ v.aggregation

def groupingAlias (f : String) : String := "__grouping_" ++ f

/-- `declared`: of two fields of one name the last counts. -/
def declared (md : Model) (name : String) : Option Field := md.fields.reverse.find? fun f => f.name = name

namespace ORMPivotInput

def dimFields (q : ORMPivotInput) : List String := q.rows ++ q.columns

/-- The fields that stand in `GROUP BY` at some depth of each axis. -/
def groupingSet (q : ORMPivotInput) (rowDepth columnDepth : Nat) : List String :=
  q.rows.take rowDepth ++ q.columns.take columnDepth

end ORMPivotInput

namespace PivotEngine

variable {N : Type} (E : PivotEngine N) (q : ORMPivotInput)

def checkField (md : Model) (name : String) : Except PivotError Unit :=
  match declared md name with
  | none =>
    .error ⟨.fieldUnknown, "field " ++ name ++ " is not declared on " ++ q.model, some ("field", name)⟩
  | some def_ =>
    if def_.kind = .one2Many ∨ def_.kind.isJoinRelation = true then
      .error ⟨.fieldUnknown,
        "field " ++ name ++ " is a " ++ relationName def_.kind ++ " relation and cannot be aggregated",
        some ("field", name)⟩
    else match E.denied q.model name with
      | some permission =>
        .error ⟨.fieldReadDenied, "field " ++ name ++ " requires permission " ++ permission, some ("field", name)⟩
      | none => .ok ()

def checkValue (md : Model) (v : PivotValue) : Except PivotError Unit := do
  E.checkField q md v.field
  if v.aggregation ≠ "count_distinct" ∧ v.aggregation ∉ aggregateSQLFuncs.map Prod.fst then
    .error ⟨.validationFailed, "unknown aggregation " ++ v.aggregation, some ("aggregation", v.aggregation)⟩
  else if v.aggregation ∈ ["sum", "avg", "min", "max"] ∧
      ((declared md v.field).map fun f => isNumericKind f.kind) ≠ some true then
    .error ⟨.validationFailed, "field " ++ v.field ++ " is not numeric", some ("field", v.field)⟩
  else .ok ()

/-- The first half of `ORMPivot`: the rows that the query reads. -/
def accept : Except PivotError (List (PivotRow N)) :=
  if E.canRead = false then .error ⟨.capabilityDenied, "module did not declare capability db.read", none⟩
  else match E.model q.model with
  | none => .error ⟨.modelNotFound, "model " ++ q.model ++ " is not available", none⟩
  | some md =>
    if E.transient md then
      .error ⟨.transientNotListable, "model " ++ q.model ++ " is Transient — there is no table to aggregate", none⟩
    else if q.rows = [] ∧ q.columns = [] then
      .error ⟨.validationFailed, "pivot requires at least one rows or columns field", none⟩
    else if q.values = [] then .error ⟨.validationFailed, "pivot requires at least one values entry", none⟩
    else do
      forM q.dimFields (E.checkField q md)
      forM q.values (E.checkValue q md)
      let holds ← E.compileDomain q.domain md
      E.readTx
      -- `activeModelWhere`
      return (E.table md).filter fun r => holds r && (!md.hasField "deleted_at" || r "deleted_at" = none)

end PivotEngine

/-! ## Groups -/

section

variable {N : Type} [DecidableEq N] (q : ORMPivotInput) (t : List (PivotRow N))

/-- The groups of one grouping set; without fields there is one group, even of an empty table. -/
def groupsAt (i j : Nat) : List (Group N) :=
  if q.groupingSet i j = [] then [⟨i, j, []⟩]
  else ((t.map fun r => (q.groupingSet i j).map r).dedup).map fun key => ⟨i, j, key⟩

/-- `GROUP BY ROLLUP(rows), ROLLUP(columns)` -/
def rollup : List (Group N) :=
  (List.range (q.rows.length + 1)).flatMap fun i =>
    (List.range (q.columns.length + 1)).flatMap fun j => groupsAt q t i j

namespace Group

variable {q t}

def fields (q : ORMPivotInput) (g : Group N) : List String := q.groupingSet g.rowDepth g.columnDepth

/-- The rows of a group. -/
def members (q : ORMPivotInput) (t : List (PivotRow N)) (g : Group N) : List (PivotRow N) :=
  t.filter fun r => (g.fields q).map r = g.key

/-- The column of a dimension field; `NULL` where it is rolled up. -/
def value (q : ORMPivotInput) (g : Group N) (f : String) : Option (Scalar N) :=
  (((g.fields q).zip g.key).lookup f).getD none

/-- The values of the fixed row fields. -/
def rowKey (g : Group N) : List (Option (Scalar N)) := g.key.take g.rowDepth

/-- The values of the fixed column fields. -/
def columnKey (g : Group N) : List (Option (Scalar N)) := g.key.drop g.rowDepth

end Group

variable {g : Group N}

theorem mem_groupsAt {i j : Nat} : g ∈ groupsAt q t i j ↔ g.rowDepth = i ∧ g.columnDepth = j ∧
      (q.groupingSet i j = [] ∧ g.key = [] ∨
        q.groupingSet i j ≠ [] ∧ ∃ r ∈ t, (q.groupingSet i j).map r = g.key) := by
  obtain ⟨i', j', key⟩ := g
  unfold groupsAt
  split
  · rename_i hset
    simp [hset]
  rename_i hset
  simp only [mem_map, mem_dedup, Group.mk.injEq, hset, false_and, false_or, ne_eq, not_false_eq_true,
    true_and]
  constructor
  · rintro ⟨_, ⟨r, hr, rfl⟩, rfl, rfl, rfl⟩
    exact ⟨rfl, rfl, r, hr, rfl⟩
  · rintro ⟨rfl, rfl, r, hr, rfl⟩
    exact ⟨_, ⟨r, hr, rfl⟩, rfl, rfl, rfl⟩

theorem nodup_groupsAt (i j : Nat) : (groupsAt q t i j).Nodup := by
  unfold groupsAt
  split
  · exact nodup_singleton _
  apply (nodup_dedup _).map
  intro key key' h
  exact (Group.mk.inj h).2.2

variable {q t}

theorem mem_rollup : g ∈ rollup q t ↔ g.rowDepth ≤ q.rows.length ∧ g.columnDepth ≤ q.columns.length ∧
      (g.fields q = [] ∧ g.key = [] ∨ g.fields q ≠ [] ∧ ∃ r ∈ t, (g.fields q).map r = g.key) := by
  simp only [rollup, mem_flatMap, mem_range, mem_groupsAt]
  constructor
  · rintro ⟨i, hi, j, hj, rfl, rfl, hkey⟩
    exact ⟨Nat.lt_succ_iff.mp hi, Nat.lt_succ_iff.mp hj, hkey⟩
  · rintro ⟨hi, hj, hkey⟩
    exact ⟨g.rowDepth, Nat.lt_succ_iff.mpr hi, g.columnDepth, Nat.lt_succ_iff.mpr hj, rfl, rfl, hkey⟩

/-- There is one result row for each group. -/
theorem nodup_rollup : (rollup q t).Nodup := by
  unfold rollup
  rw [nodup_flatMap]
  refine ⟨fun i _ => ?_, ?_⟩
  · rw [nodup_flatMap]
    refine ⟨fun j _ => nodup_groupsAt q t i j, nodup_range.imp ?_⟩
    intro j j' hne g hg hg'
    obtain ⟨-, hj, -⟩ := (mem_groupsAt q t).mp hg
    obtain ⟨-, hj', -⟩ := (mem_groupsAt q t).mp hg'
    exact hne (hj.symm.trans hj')
  · apply nodup_range.imp
    intro i i' hne g hg hg'
    obtain ⟨j, -, hg⟩ := mem_flatMap.mp hg
    obtain ⟨j', -, hg'⟩ := mem_flatMap.mp hg'
    obtain ⟨hi, -, -⟩ := (mem_groupsAt q t).mp hg
    obtain ⟨hi', -, -⟩ := (mem_groupsAt q t).mp hg'
    exact hne (hi.symm.trans hi')

theorem Group.length_key (hg : g ∈ rollup q t) : g.key.length = (g.fields q).length := by
  obtain ⟨-, -, ⟨hset, hkey⟩ | ⟨-, r, -, hkey⟩⟩ := mem_rollup.mp hg
  · rw [hset, hkey, length_nil, length_nil]
  · rw [← hkey, length_map]

theorem Group.length_keys (hg : g ∈ rollup q t) :
    g.rowKey.length = g.rowDepth ∧ g.columnKey.length = g.columnDepth := by
  have hlen := Group.length_key hg
  obtain ⟨hi, hj, -⟩ := mem_rollup.mp hg
  rw [Group.fields, ORMPivotInput.groupingSet, length_append, length_take, length_take] at hlen
  rw [Group.rowKey, length_take, Group.columnKey, length_drop]
  omega

omit [DecidableEq N] in
theorem Group.rowKey_append_columnKey (g : Group N) : g.rowKey ++ g.columnKey = g.key := take_append_drop _ _

end

/-! ## Cells -/

/-- A cell of `ORMPivotOutput`; a rolled-up position holds nothing. -/
structure PivotCell (N : Type) where
  row : List (Option (Scalar N))
  column : List (Option (Scalar N))
  values : List (String × Option (Scalar N))
  deriving DecidableEq, Repr

/-- `rec[k]`, for a row read into a map: the last column of the name. -/
def lookupLast {α : Type} (columns : List (String × Option α)) (k : String) : Option α :=
  ((columns.reverse.find? fun x => x.1 = k).map Prod.snd).getD none

theorem lookupLast_of_mem {α : Type} {columns : List (String × Option α)} {k : String} {v : Option α}
    (hmem : (k, v) ∈ columns) (hone : ∀ v', (k, v') ∈ columns → v' = v) : lookupLast columns k = v := by
  unfold lookupLast
  cases hfind : columns.reverse.find? fun x => x.1 = k with
  | none =>
    have hne := find?_eq_none.mp hfind (k, v) (mem_reverse.mpr hmem)
    simp at hne
  | some x =>
    have hk : x.1 = k := by simpa using find?_some hfind
    have hx : x ∈ columns := mem_reverse.mp (mem_of_find?_eq_some hfind)
    exact hone x.2 (hk ▸ hx)

/-- A dimension that the grouping set rolls up is `none`, as a NULL in it is. -/
def dimensionValues {N : Type} [DecidableEq N] (record : String → Option (Scalar N)) (fields : List String) :
    List (Option (Scalar N)) :=
  fields.map fun f => if record (groupingAlias f) = some (.bool true) then none else record f

namespace PivotEngine

variable {N : Type} [DecidableEq N] (E : PivotEngine N) (q : ORMPivotInput) (t : List (PivotRow N)) (g : Group N)

/-- An aggregate of a group. -/
def aggregateOf (v : PivotValue) : Option (Scalar N) :=
  E.aggregate v.aggregation ((g.members q t).map fun r => r v.field)

/-- The columns of a result row: the dimensions, the aggregates and the results of `GROUPING`. -/
def select : List (String × Option (Scalar N)) :=
  q.dimFields.map (fun f => (f, g.value q f)) ++ q.values.map (fun v => (v.alias, E.aggregateOf q t g v)) ++
    q.dimFields.map fun f => (groupingAlias f, some (.bool (decide (f ∉ g.fields q))))

/-- `scanRowsToMaps` -/
def record (k : String) : Option (Scalar N) := lookupLast ((E.select q t g).map fun x => (E.label x.1, x.2)) k

/-- One group of the result. -/
def cell : PivotCell N where
  row := dimensionValues (E.record q t g) q.rows
  column := dimensionValues (E.record q t g) q.columns
  values := (q.values.map PivotValue.alias).dedup.map fun a => (a, E.record q t g a)

/-- The result rows of the query. -/
def result : List (Group N) := E.order (rollup q t)

/-- The request is checked, then run. -/
def ORMPivot : Except PivotError (List (PivotCell N)) := do
  let t ← E.accept q
  return (E.result q t).map (E.cell q t)

end PivotEngine

/-! ## Names -/

/-- The names of the result row's columns are short enough, and no two columns have one name. -/
structure NamesApart (label : String → String) (q : ORMPivotInput) : Prop where
  dims_fit : ∀ f ∈ q.dimFields, label f = f ∧ label (groupingAlias f) = groupingAlias f
  values_fit : ∀ v ∈ q.values, label v.alias = v.alias
  dims_nodup : q.dimFields.Nodup
  values_apart : ∀ v ∈ q.values, ∀ f ∈ q.dimFields, v.alias ≠ f ∧ v.alias ≠ groupingAlias f
  groupings_apart : ∀ f ∈ q.dimFields, groupingAlias f ∉ q.dimFields

theorem groupingAlias_inj {f f' : String} (h : groupingAlias f = groupingAlias f') : f = f' := by
  have hl := congrArg String.toList h
  rw [groupingAlias, groupingAlias, String.toList_append, String.toList_append] at hl
  exact String.toList_inj.mp (append_cancel_left hl)

/-- The aggregations that a request may name. -/
def aggregations : List String := "count_distinct" :: aggregateSQLFuncs.map Prod.fst

/-- No aggregation's name, with the separator before it, ends another's, so an alias tells which it is. -/
theorem aggregation_eq_of_isSuffix {a b : String} (ha : a ∈ aggregations) (hb : b ∈ aggregations)
    (h : ("_" ++ a).toList <:+ ("_" ++ b).toList) : a = b := by
  have hall : ∀ a ∈ aggregations, ∀ b ∈ aggregations, ("_" ++ a).toList <:+ ("_" ++ b).toList → a = b := by
    decide
  exact hall a ha b hb h

theorem alias_inj {v w : PivotValue} (hv : v.aggregation ∈ aggregations) (hw : w.aggregation ∈ aggregations)
    (h : v.alias = w.alias) : v = w := by
  obtain ⟨f, a⟩ := v
  obtain ⟨f', b⟩ := w
  have hl : f.toList ++ ("_" ++ a).toList = f'.toList ++ ("_" ++ b).toList := by
    have := congrArg String.toList h
    simpa only [PivotValue.alias, String.toList_append, append_assoc] using this
  have hab : a = b := by
    have hsuff : ("_" ++ a).toList <:+ f'.toList ++ ("_" ++ b).toList := hl ▸ suffix_append _ _
    rcases Nat.le_total ("_" ++ a).toList.length ("_" ++ b).toList.length with hle | hle
    · exact aggregation_eq_of_isSuffix hv hw (suffix_of_suffix_length_le hsuff (suffix_append _ _) hle)
    · exact (aggregation_eq_of_isSuffix hw hv
        (suffix_of_suffix_length_le (suffix_append _ _) hsuff hle)).symm
  subst hab
  rw [String.toList_inj.mp (append_cancel_right hl)]

namespace PivotEngine

section

variable {N : Type} {E : PivotEngine N} {q : ORMPivotInput}

theorem checkValue_ok {md : Model} {v : PivotValue} (h : E.checkValue q md v = .ok ()) :
    v.aggregation ∈ aggregations := by
  obtain ⟨_, -, h⟩ := bind_eq_ok.mp h
  by_contra hv
  rw [aggregations, mem_cons, not_or] at hv
  rw [if_pos hv] at h
  simp at h

theorem aggregation_of_accept {t : List (PivotRow N)} (h : E.accept q = .ok t) {v : PivotValue} (hv : v ∈ q.values) :
    v.aggregation ∈ aggregations := by
  unfold accept at h
  split at h
  · simp at h
  split at h
  · simp at h
  split at h
  · simp at h
  split at h
  · simp at h
  split at h
  · simp at h
  obtain ⟨_, -, h⟩ := bind_eq_ok.mp h
  obtain ⟨_, hvalues, -⟩ := bind_eq_ok.mp h
  exact checkValue_ok (forM_eq_ok.mp hvalues v hv)

end

/-! ## What a cell holds -/

section

variable {N : Type} [DecidableEq N] {E : PivotEngine N} {q : ORMPivotInput} {t : List (PivotRow N)} {g : Group N}
  {v : Option (Scalar N)} {k : String}

theorem mem_select : (k, v) ∈ E.select q t g ↔
      (∃ f ∈ q.dimFields, k = f ∧ v = g.value q f) ∨
      (∃ w ∈ q.values, k = w.alias ∧ v = E.aggregateOf q t g w) ∨
      ∃ f ∈ q.dimFields, k = groupingAlias f ∧ v = some (.bool (decide (f ∉ g.fields q))) := by
  simp only [select, mem_append, mem_map, Prod.mk.injEq, or_assoc, eq_comm]

/-- The names of the columns are what Postgres makes of them. -/
theorem label_of_mem_select (hnames : NamesApart E.label q) {x : String × Option (Scalar N)} (hx : x ∈ E.select q t g) :
    E.label x.1 = x.1 := by
  obtain ⟨k, v⟩ := x
  rcases mem_select.mp hx with ⟨f, hf, rfl, -⟩ | ⟨w, hw, rfl, -⟩ | ⟨f, hf, rfl, -⟩
  · exact (hnames.dims_fit _ hf).1
  · exact hnames.values_fit w hw
  · exact (hnames.dims_fit f hf).2

section

variable (hnames : NamesApart E.label q) (hknown : ∀ v ∈ q.values, v.aggregation ∈ aggregations)

include hnames hknown

/-- No two columns have one name and different values. -/
theorem select_unique {v' : Option (Scalar N)} (h : (k, v) ∈ E.select q t g) (h' : (k, v') ∈ E.select q t g) :
    v' = v := by
  rcases mem_select.mp h with ⟨f, hf, hk, rfl⟩ | ⟨w, hw, hk, rfl⟩ | ⟨f, hf, hk, rfl⟩
  · rcases mem_select.mp h' with ⟨f', hf', hk', rfl⟩ | ⟨w', hw', hk', rfl⟩ | ⟨f', hf', hk', rfl⟩
    · rw [← hk, hk']
    · exact absurd (hk'.symm.trans hk) (hnames.values_apart w' hw' f hf).1
    · exact absurd ((hk.symm.trans hk') ▸ hf) (hnames.groupings_apart f' hf')
  · rcases mem_select.mp h' with ⟨f', hf', hk', rfl⟩ | ⟨w', hw', hk', rfl⟩ | ⟨f', hf', hk', rfl⟩
    · exact absurd (hk.symm.trans hk') (hnames.values_apart w hw f' hf').1
    · rw [alias_inj (hknown w hw) (hknown w' hw') (hk.symm.trans hk')]
    · exact absurd (hk.symm.trans hk') (hnames.values_apart w hw f' hf').2
  rcases mem_select.mp h' with ⟨f', hf', hk', rfl⟩ | ⟨w', hw', hk', rfl⟩ | ⟨f', hf', hk', rfl⟩
  · exact absurd ((hk'.symm.trans hk) ▸ hf') (hnames.groupings_apart f hf)
  · exact absurd (hk'.symm.trans hk) (hnames.values_apart w' hw' f hf).2
  · rw [groupingAlias_inj (hk.symm.trans hk')]

theorem record_of_mem (h : (k, v) ∈ E.select q t g) : E.record q t g k = v := by
  have hlabels : (E.select q t g).map (fun x => (E.label x.1, x.2)) = E.select q t g := by
    rw [map_congr_left fun x hx => by rw [label_of_mem_select hnames hx], map_id']
  rw [record, hlabels]
  exact lookupLast_of_mem h fun v' h' => select_unique hnames hknown h h'

/-- A dimension is read back unless it is rolled up. -/
theorem dimensionValues_record {fields : List String} (hfields : fields ⊆ q.dimFields) :
    dimensionValues (E.record q t g) fields = fields.map fun f => if f ∈ g.fields q then g.value q f else none := by
  apply map_congr_left
  intro f hf
  have hdim := record_of_mem hnames hknown (mem_select.mpr (.inl ⟨f, hfields hf, rfl, rfl⟩) : _ ∈ E.select q t g)
  have hgrouping := record_of_mem hnames hknown
    (mem_select.mpr (.inr (.inr ⟨f, hfields hf, rfl, rfl⟩)) : _ ∈ E.select q t g)
  rw [hdim, hgrouping]
  by_cases h : f ∈ g.fields q <;> simp [h]

end

end

end PivotEngine

section

variable {N : Type} {q : ORMPivotInput} {g : Group N}

theorem map_lookup_zip {α : Type} {fields : List String} {key : List (Option α)} (hnodup : fields.Nodup)
    (hlen : key.length = fields.length) : (fields.map fun f => ((fields.zip key).lookup f).getD none) = key := by
  induction fields generalizing key with
  | nil => exact (length_eq_zero_iff.mp hlen).symm
  | cons f fields ih =>
    obtain ⟨v, key, rfl⟩ := exists_cons_of_length_eq_add_one hlen
    obtain ⟨hf, hnodup⟩ := nodup_cons.mp hnodup
    rw [map_cons, zip_cons_cons]
    congr 1
    · rw [lookup_cons_self, Option.getD_some]
    conv_rhs => rw [← ih hnodup (Nat.succ.inj hlen)]
    apply map_congr_left
    intro f' hf'
    have hne : (f' == f) = false := beq_false_of_ne fun h => hf (h ▸ hf')
    rw [lookup_cons, hne]

/-- The two halves of a group's key, read from the fields of the axes. -/
theorem Group.map_value (hnodup : (g.fields q).Nodup) (hlen : g.key.length = (g.fields q).length)
    (hrow : g.rowKey.length = (q.rows.take g.rowDepth).length) :
    (q.rows.take g.rowDepth).map (g.value q) = g.rowKey ∧
      (q.columns.take g.columnDepth).map (g.value q) = g.columnKey := by
  have hkey : (g.fields q).map (g.value q) = g.rowKey ++ g.columnKey := by
    rw [g.rowKey_append_columnKey]
    exact map_lookup_zip hnodup hlen
  rw [Group.fields, ORMPivotInput.groupingSet, map_append] at hkey
  exact append_inj hkey (by rw [length_map, hrow])

/-- An axis shows the values of its fixed fields and nothing for the others. -/
theorem map_axis {fixed others : List String} {key : List (Option (Scalar N))} (hfixed : fixed ⊆ g.fields q)
    (hothers : ∀ f ∈ others, f ∉ g.fields q) (hkey : fixed.map (g.value q) = key) :
    ((fixed ++ others).map fun f => if f ∈ g.fields q then g.value q f else none) =
      key ++ List.replicate others.length none := by
  rw [map_append, ← hkey]
  congr 1
  · exact map_congr_left fun f hf => if_pos (hfixed hf)
  · rw [← map_const']
    exact map_congr_left fun f hf => if_neg (hothers f hf)

end

namespace PivotEngine

variable {N : Type} [DecidableEq N] {E : PivotEngine N} {q : ORMPivotInput} {t : List (PivotRow N)} {g : Group N}

/-- **A cell**: the values of the fixed fields, nothing for the fields that are rolled up, and the aggregates. -/
theorem cell_eq (hnames : NamesApart E.label q) (hknown : ∀ v ∈ q.values, v.aggregation ∈ aggregations)
    (hg : g ∈ rollup q t) : (E.cell q t g).row = g.rowKey ++ List.replicate (q.rows.length - g.rowDepth) none ∧
      (E.cell q t g).column = g.columnKey ++ List.replicate (q.columns.length - g.columnDepth) none ∧
      ∀ v ∈ q.values, (v.alias, E.aggregateOf q t g v) ∈ (E.cell q t g).values := by
  obtain ⟨hi, hj, -⟩ := mem_rollup.mp hg
  -- the fields of a grouping set are among the dimensions, and no dimension stands twice
  obtain ⟨hrows, hcolumns, hdisjoint⟩ := nodup_append'.mp hnames.dims_nodup
  have htakeRows : q.rows.take g.rowDepth ⊆ q.rows := take_subset _ _
  have htakeColumns : q.columns.take g.columnDepth ⊆ q.columns := take_subset _ _
  have hnodup : (g.fields q).Nodup := nodup_append'.mpr
    ⟨hrows.sublist (take_sublist _ _), hcolumns.sublist (take_sublist _ _),
      fun f hf hf' => hdisjoint (htakeRows hf) (htakeColumns hf')⟩
  obtain ⟨hrowKey, hcolumnKey⟩ := Group.map_value hnodup (Group.length_key hg)
    (by rw [(Group.length_keys hg).1, length_take_of_le hi])
  refine ⟨?_, ?_, ?_⟩
  · show dimensionValues (E.record q t g) q.rows = _
    rw [dimensionValues_record hnames hknown (subset_append_left _ _), ← length_drop]
    conv_lhs => rw [← take_append_drop g.rowDepth q.rows]
    refine map_axis (subset_append_left _ _) ?_ hrowKey
    intro f hf hmem
    rcases mem_append.mp hmem with hmem | hmem
    · exact disjoint_take_drop hrows (Nat.le_refl _) hmem hf
    · exact hdisjoint (drop_subset _ _ hf) (htakeColumns hmem)
  · show dimensionValues (E.record q t g) q.columns = _
    rw [dimensionValues_record hnames hknown (subset_append_right _ _), ← length_drop]
    conv_lhs => rw [← take_append_drop g.columnDepth q.columns]
    refine map_axis (subset_append_right _ _) ?_ hcolumnKey
    intro f hf hmem
    rcases mem_append.mp hmem with hmem | hmem
    · exact hdisjoint (htakeRows hmem) (drop_subset _ _ hf)
    · exact disjoint_take_drop hcolumns (Nat.le_refl _) hmem hf
  · intro v hv
    refine mem_map.mpr ⟨v.alias, mem_dedup.mpr (mem_map_of_mem hv), ?_⟩
    rw [record_of_mem hnames hknown (mem_select.mpr (.inr (.inl ⟨v, hv, rfl, rfl⟩)))]

theorem ORMPivot_eq (h : E.accept q = .ok t) : E.ORMPivot q = .ok ((E.result q t).map (E.cell q t)) := by
  rw [ORMPivot, h]
  rfl

theorem mem_result : g ∈ E.result q t ↔ g ∈ rollup q t := (E.order_perm _).mem_iff

theorem nodup_result : (E.result q t).Nodup := (E.order_perm _).nodup_iff.mpr nodup_rollup

end PivotEngine

end GoErp.Pivot
