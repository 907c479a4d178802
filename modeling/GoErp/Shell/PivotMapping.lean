import Mathlib.Data.List.ReduceOption
import GoErp.Lib.JsonText
import GoErp.Orm.Pivot

/-!
# `Shell.PivotMapping` — the pivot grid's cells

`mapPivotResponse` (`renderers/pivot/pivot-mapping.ts`) turns the cells of a pivot response into headers and cells
that name their headers by keys.

A header's key is the JSON text of the values on the way to it. A total over a whole axis has no header, so its cell
is dropped by design; a group with `NULL` in its last dimension gets the key of the subtotal above it; every other
group keeps its cells (`pivot_cells_kept`).
-/

namespace GoErp.Pivot

open Lib List

/-! ## Scalars at the client -/

/-- A number of the client, by the text that `String` gives it. -/
structure Numeral where
  text : List Char
  nonempty : text ≠ []
  chars : ∀ c ∈ text, c.isDigit = true ∨ c ∈ ['-', '+', '.', 'e']
  deriving DecidableEq

/-- `Number` of a boolean. -/
def Numeral.ofBool (b : Bool) : Numeral := if b then ⟨['1'], by decide, by simp⟩ else ⟨['0'], by decide, by simp⟩

/-- What the client makes of numbers. -/
structure Wire (N : Type) where
  /-- a number of the response, as `JSON.parse` reads it -/
  decode : N → Numeral
  /-- `Number` of a text; `NaN` is `none` -/
  number : String → Option Numeral

namespace Scalar

def map {N M : Type} (f : N → M) : Scalar N → Scalar M
  | str s => str s
  | num n => num (f n)
  | bool b => bool b

def boolText (b : Bool) : List Char := if b then "true".toList else "false".toList

/-- `JSON.stringify` -/
def text : Scalar Numeral → List Char
  | str s => JsonText.quote s.toList
  | num n => n.text
  | bool b => boolText b

/-- `String` -/
def label : Scalar Numeral → String
  | str s => s
  | num n => String.ofList n.text
  | bool b => String.ofList (boolText b)

/-- The scalars whose text is not quoted. -/
def isPlain : Scalar Numeral → Bool
  | str _ => false
  | _ => true

theorem text_plain {a : Scalar Numeral} (h : a.isPlain = true) :
    ∃ c cs, a.text = c :: cs ∧ c ≠ JsonText.quotationMark ∧ ∀ d ∈ a.text, ¬ JsonText.Stop d := by
  cases a with
  | str s => simp [isPlain] at h
  | bool b => cases b <;> exact ⟨_, _, rfl, by decide, by simp [text, boolText, JsonText.Stop]⟩
  | num n =>
    obtain ⟨c, cs, hcs⟩ := exists_cons_of_ne_nil n.nonempty
    refine ⟨c, cs, hcs, ?_, ?_⟩
    · rintro rfl
      exact absurd (n.chars _ (hcs ▸ mem_cons_self)) (by decide)
    rintro d hd (rfl | rfl)
    all_goals exact absurd (n.chars _ hd) (by decide)

theorem eq_of_text_eq {a b : Scalar Numeral} (ha : a.isPlain = true) (hb : b.isPlain = true) (h : a.text = b.text) :
    a = b := by
  -- a letter of `true` or `false` stands in no number
  have hnum : ∀ (n : Numeral) (x : Bool), n.text ≠ boolText x := by
    rintro n (_ | _) hn
    · exact absurd (n.chars 'f' (hn ▸ by decide)) (by decide)
    · exact absurd (n.chars 't' (hn ▸ by decide)) (by decide)
  cases a with
  | str s => simp [isPlain] at ha
  | num n =>
    cases b with
    | str s => simp [isPlain] at hb
    | bool y => exact absurd h (hnum n y)
    | num m =>
      obtain ⟨u, hu, hc⟩ := n
      obtain ⟨v, hv, hd⟩ := m
      obtain rfl : u = v := h
      rfl
  | bool x =>
    cases b with
    | str s => simp [isPlain] at hb
    | num m => exact absurd h.symm (hnum m x)
    | bool y => cases x <;> cases y <;> first | rfl | exact absurd h (by decide)

theorem quote_append_ne {s x y : List Char} {b : Scalar Numeral} (hb : b.isPlain = true) :
    JsonText.quote s ++ x ≠ b.text ++ y := by
  obtain ⟨c, cs, htext, hc, -⟩ := text_plain hb
  intro h
  rw [htext] at h
  exact hc (List.cons.inj h).1.symm

theorem delimited_text : JsonText.Delimited text where
  inj a b x y hx hy h := by
    cases ha : a.isPlain with
    | true =>
      cases hb : b.isPlain with
      | true =>
        obtain ⟨_, _, -, -, hu⟩ := text_plain ha
        obtain ⟨_, _, -, -, hv⟩ := text_plain hb
        obtain ⟨htext, hxy⟩ := JsonText.plain_append_inj hu hv hx hy h
        exact ⟨eq_of_text_eq ha hb htext, hxy⟩
      | false =>
        cases b with
        | str s => exact absurd h.symm (quote_append_ne ha)
        | num n => simp [isPlain] at hb
        | bool b => simp [isPlain] at hb
    | false =>
      cases a with
      | num n => simp [isPlain] at ha
      | bool b => simp [isPlain] at ha
      | str s =>
        cases b with
        | str s' =>
          obtain ⟨hs, hxy⟩ := JsonText.quote_append_inj h
          exact ⟨by rw [String.toList_inj.mp hs], hxy⟩
        | num n => exact absurd h (quote_append_ne (b := .num n) rfl)
        | bool b => exact absurd h (quote_append_ne (b := .bool b) rfl)
  ne_stop a x _ h := by
    cases ha : a.isPlain with
    | true =>
      obtain ⟨c, cs, htext, -, hstop⟩ := text_plain ha
      rw [htext] at h
      exact hstop c (htext ▸ mem_cons_self) (.inr (List.cons.inj h).1)
    | false =>
      cases a with
      | num n => simp [isPlain] at ha
      | bool b => simp [isPlain] at ha
      | str s => exact absurd (List.cons.inj h).1 (by decide)

end Scalar

/-! ## The mapping -/

/-- The values before the first `null`, unless a value comes after it. -/
def activePrefix {α : Type} (path : List (Option α)) : Option (List α) :=
  let before := path.takeWhile Option.isSome
  if (path.drop before.length).any Option.isSome then none else some before.reduceOption

def pathKey (path : List (Scalar Numeral)) : String := String.ofList (JsonText.array Scalar.text path)

inductive PivotHeaderNode where
  | mk (key label : String) (children : List PivotHeaderNode)

namespace PivotHeaderNode

def key : PivotHeaderNode → String
  | mk key _ _ => key

def label : PivotHeaderNode → String
  | mk _ label _ => label

def children : PivotHeaderNode → List PivotHeaderNode
  | mk _ _ children => children

/-- The node of a key among its siblings, made if there is none, with its children changed. -/
def upsert (key label : String) (f : List PivotHeaderNode → List PivotHeaderNode) :
    List PivotHeaderNode → List PivotHeaderNode
  | [] => [mk key label (f [])]
  | node :: siblings =>
    if node.key = key then mk node.key node.label (f node.children) :: siblings
    else node :: upsert key label f siblings

/-- One path of `buildHeaderTree`, below the nodes of `keyPrefix`. The map `byKey` of the source finds a node by the key
of its whole path, so it finds it among the siblings. -/
def insertPath : List (Scalar Numeral) → List (Scalar Numeral) → List PivotHeaderNode → List PivotHeaderNode
  | _, [], siblings => siblings
  | before, segment :: path, siblings =>
    upsert (pathKey (before ++ [segment])) segment.label (insertPath (before ++ [segment]) path) siblings

end PivotHeaderNode

def buildHeaderTree (leafPaths : List (List (Scalar Numeral))) : List PivotHeaderNode :=
  leafPaths.foldl (fun roots path => PivotHeaderNode.insertPath [] path roots) []

def totalNode : PivotHeaderNode := .mk "[]" "Total" []

/-- A cell of the grid; the headers are named by their keys. -/
structure GridCell where
  rowKey : String
  columnKey : String
  valueKey : String
  value : Option Numeral
  deriving DecidableEq

structure MappedPivotData where
  rowHeaders : List PivotHeaderNode
  columnHeaders : List PivotHeaderNode
  cells : List GridCell

structure CellEntry where
  rowPath : List (Scalar Numeral)
  columnPath : List (Scalar Numeral)
  values : List (String × Option (Scalar Numeral))
  deriving DecidableEq

/-- What a cell of the response becomes; a total over a whole axis has no header and is dropped. -/
def cellEntry (rows columns : List String) (cell : PivotCell Numeral) : Option CellEntry := do
  let rowPath ← activePrefix cell.row
  let columnPath ← activePrefix cell.column
  if rows ≠ [] ∧ rowPath = [] then none
  else if columns ≠ [] ∧ columnPath = [] then none
  else some ⟨rowPath, columnPath, cell.values⟩

/-- The paths of an axis that reach its last field. -/
def leafPaths (fields : List String) (paths : List (List (Scalar Numeral))) : List (List (Scalar Numeral)) :=
  paths.filter fun path => path.length = fields.length ∧ fields ≠ []

def headers (fields : List String) (paths : List (List (Scalar Numeral))) : List PivotHeaderNode :=
  if fields = [] then [totalNode] else buildHeaderTree (leafPaths fields paths)

namespace Wire

variable {N : Type} (W : Wire N)

/-- `toCellValue`; a text that is no number shows nothing. -/
def toCellValue : Option (Scalar Numeral) → Option Numeral
  | none => none
  | some (.num n) => some n
  | some (.str s) => W.number s
  | some (.bool b) => some (.ofBool b)

def mapPivotResponse (response : List (PivotCell Numeral)) (rows columns : List String) : MappedPivotData :=
  let entries := response.filterMap (cellEntry rows columns)
  { rowHeaders := headers rows (entries.map CellEntry.rowPath)
    columnHeaders := headers columns (entries.map CellEntry.columnPath)
    cells := entries.flatMap fun e =>
      e.values.map fun x => ⟨pathKey e.rowPath, pathKey e.columnPath, x.1, W.toCellValue x.2⟩ }

/-- A value of the response, as the client reads it. -/
def client : Option (Scalar N) → Option (Scalar Numeral) := Option.map (Scalar.map W.decode)

/-- A cell of the response, as the client reads it; `values` lists the entries of an object. -/
def response (cell : PivotCell N) : PivotCell Numeral where
  row := cell.row.map W.client
  column := cell.column.map W.client
  values := cell.values.map fun x => (x.1, W.client x.2)

end Wire

/-! ## Keys -/

theorem pathKey_injective : Function.Injective pathKey := by
  intro p p' h
  exact Scalar.delimited_text.array_injective (String.ofList_injective h)

/-- A path followed by nothing but `null` is read back. -/
theorem activePrefix_append {α : Type} (path : List α) (n : Nat) :
    activePrefix (path.map some ++ List.replicate n none) = some path := by
  have hbefore : (path.map some ++ List.replicate n none).takeWhile Option.isSome = path.map some := by
    simp
  unfold activePrefix
  simp [hbefore, List.reduceOption]

section

variable {N : Type} [DecidableEq N] {E : PivotEngine N} {W : Wire N} {q : ORMPivotInput} {t : List (PivotRow N)}
  {g g' : Group N}

/-- The groups with a header on each axis that has fields. -/
def Group.Shown (q : ORMPivotInput) (g : Group N) : Prop :=
  (q.rows ≠ [] → 0 < g.rowDepth) ∧ (q.columns ≠ [] → 0 < g.columnDepth)

/-- The keys that a result row's cells get; a dropped row has none. -/
def keys (E : PivotEngine N) (W : Wire N) (q : ORMPivotInput) (t : List (PivotRow N)) (g : Group N) :
    Option (String × String) :=
  (cellEntry q.rows q.columns (W.response (E.cell q t g))).map fun e => (pathKey e.rowPath, pathKey e.columnPath)

/-- The values of a key at the client. -/
def Wire.path (W : Wire N) (key : List (Option (Scalar N))) : List (Scalar Numeral) := (key.map W.client).reduceOption

variable {key : List (Option (Scalar N))}

omit [DecidableEq N] in
theorem map_client_eq (h : none ∉ key) : key.map W.client = (W.path key).map some := by
  induction key with
  | nil => rfl
  | cons v key ih =>
    rw [mem_cons, not_or] at h
    cases v with
    | none => exact absurd rfl h.1
    | some v =>
      rw [map_cons, ih h.2]
      rfl

omit [DecidableEq N] in
theorem length_path (h : none ∉ key) : (W.path key).length = key.length := by
  have hlen := congrArg List.length (map_client_eq (W := W) h)
  rw [length_map, length_map] at hlen
  exact hlen.symm

omit [DecidableEq N] in
/-- An axis of a cell, at the client. -/
theorem activePrefix_response (h : none ∉ key) (n : Nat) :
    activePrefix ((key ++ List.replicate n none).map W.client) = some (W.path key) := by
  rw [map_append, map_client_eq h, map_replicate]
  exact activePrefix_append _ n

section

variable (hnames : NamesApart E.label q) (hknown : ∀ v ∈ q.values, v.aggregation ∈ aggregations) (hg : g ∈ rollup q t)
  (hshown : g.Shown q) (hnull : none ∉ g.key)

include hnames hknown hg hshown hnull

/-- **The entry of a group without `NULL`** that has headers. -/
theorem cellEntry_cell :
    cellEntry q.rows q.columns (W.response (E.cell q t g)) =
      some ⟨W.path g.rowKey, W.path g.columnKey, (W.response (E.cell q t g)).values⟩ := by
  obtain ⟨hrow, hcolumn, -⟩ := E.cell_eq hnames hknown hg
  have hrowNull : none ∉ g.rowKey := fun h => hnull (mem_of_mem_take h)
  have hcolumnNull : none ∉ g.columnKey := fun h => hnull (mem_of_mem_drop h)
  have hrowPath : activePrefix (W.response (E.cell q t g)).row = some (W.path g.rowKey) := by
    rw [Wire.response, hrow]
    exact activePrefix_response hrowNull _
  have hcolumnPath : activePrefix (W.response (E.cell q t g)).column = some (W.path g.columnKey) := by
    rw [Wire.response, hcolumn]
    exact activePrefix_response hcolumnNull _
  have hrows : ¬ (q.rows ≠ [] ∧ W.path g.rowKey = []) := by
    rintro ⟨hne, hnil⟩
    have hlen := length_path (W := W) hrowNull
    rw [hnil, (Group.length_keys hg).1] at hlen
    exact absurd (hshown.1 hne) (by rw [← hlen]; exact Nat.lt_irrefl 0)
  have hcolumns : ¬ (q.columns ≠ [] ∧ W.path g.columnKey = []) := by
    rintro ⟨hne, hnil⟩
    have hlen := length_path (W := W) hcolumnNull
    rw [hnil, (Group.length_keys hg).2] at hlen
    exact absurd (hshown.2 hne) (by rw [← hlen]; exact Nat.lt_irrefl 0)
  rw [cellEntry, hrowPath, hcolumnPath]
  simp only [bind, Option.bind, if_neg hrows, if_neg hcolumns]

theorem keys_eq : keys E W q t g = some (pathKey (W.path g.rowKey), pathKey (W.path g.columnKey)) := by
  rw [keys, cellEntry_cell hnames hknown hg hshown hnull]
  rfl

end

/-- The numbers of the dimension columns stay different at the client. -/
def Wire.KeepsApart (W : Wire N) (q : ORMPivotInput) (t : List (PivotRow N)) : Prop :=
  ∀ f ∈ q.dimFields, ∀ r ∈ t, ∀ r' ∈ t, ∀ m n, r f = some (.num m) → r' f = some (.num n) →
    W.decode m = W.decode n → m = n

omit [DecidableEq N] in
theorem Wire.KeepsApart.eq (hwire : W.KeepsApart q t) {f : String} (hf : f ∈ q.dimFields) {r r' : PivotRow N}
    (hr : r ∈ t) (hr' : r' ∈ t) (h : W.client (r f) = W.client (r' f)) : r f = r' f := by
  cases hv : r f with
  | none =>
    rw [hv] at h
    cases hv' : r' f with
    | none => rfl
    | some v' => simp [hv', Wire.client] at h
  | some v =>
    rw [hv] at h
    cases hv' : r' f with
    | none => simp [hv', Wire.client] at h
    | some v' =>
      have hmap : v.map W.decode = v'.map W.decode := by simpa [hv', Wire.client] using h
      cases v with
      | str s =>
        cases v' <;> simp_all [Scalar.map]
      | bool b =>
        cases v' <;> simp_all [Scalar.map]
      | num m =>
        cases v' with
        | str s => simp [Scalar.map] at hmap
        | bool b => simp [Scalar.map] at hmap
        | num n => rw [hwire f hf r hr r' hr' m n hv hv' (Scalar.num.inj hmap)]

omit [DecidableEq N] in
theorem fields_subset (q : ORMPivotInput) (g : Group N) : g.fields q ⊆ q.dimFields := by
  intro f hf
  rcases mem_append.mp hf with hf | hf
  · exact mem_append_left _ (mem_of_mem_take hf)
  · exact mem_append_right _ (mem_of_mem_take hf)

/-- Two groups of one grouping set with the same values at the client are one group. -/
theorem group_eq_of_client (hwire : W.KeepsApart q t) (hg : g ∈ rollup q t) (hg' : g' ∈ rollup q t)
    (hrow : g.rowDepth = g'.rowDepth) (hcolumn : g.columnDepth = g'.columnDepth)
    (hkey : g.key.map W.client = g'.key.map W.client) : g = g' := by
  have hfields : g.fields q = g'.fields q := by rw [Group.fields, Group.fields, hrow, hcolumn]
  have hkeys : g.key = g'.key := by
    obtain ⟨-, -, ⟨hset, hnil⟩ | ⟨hset, r, hr, hr_key⟩⟩ := mem_rollup.mp hg
    · have hlen := Group.length_key hg'
      rw [← hfields, hset] at hlen
      rw [hnil, length_eq_zero_iff.mp hlen]
    obtain ⟨-, -, ⟨hset', -⟩ | ⟨-, r', hr', hr'_key⟩⟩ := mem_rollup.mp hg'
    · exact absurd (hfields.trans hset') hset
    rw [← hr_key, ← hr'_key, ← hfields, List.map_map, List.map_map] at hkey
    rw [← hr_key, ← hr'_key, ← hfields]
    apply map_congr_left
    intro f hf
    exact hwire.eq (fields_subset q g hf) hr hr' (map_inj_left.mp hkey f hf)
  obtain ⟨i, j, key⟩ := g
  obtain ⟨i', j', key'⟩ := g'
  obtain rfl : i = i' := hrow
  obtain rfl : j = j' := hcolumn
  obtain rfl : key = key' := hkeys
  rfl

/-- Different groups without `NULL` get different keys. -/
theorem keys_inj (hnames : NamesApart E.label q) (hknown : ∀ v ∈ q.values, v.aggregation ∈ aggregations)
    (hwire : W.KeepsApart q t) (hg : g ∈ rollup q t) (hg' : g' ∈ rollup q t) (hshown : g.Shown q) (hshown' : g'.Shown q)
    (hnull : none ∉ g.key) (hnull' : none ∉ g'.key) (h : keys E W q t g = keys E W q t g') : g = g' := by
  rw [keys_eq hnames hknown hg hshown hnull, keys_eq hnames hknown hg' hshown' hnull'] at h
  obtain ⟨hrow, hcolumn⟩ := Prod.ext_iff.mp (Option.some.inj h)
  have hrow : W.path g.rowKey = W.path g'.rowKey := pathKey_injective hrow
  have hcolumn : W.path g.columnKey = W.path g'.columnKey := pathKey_injective hcolumn
  have hrowNull : ∀ {x : Group N}, none ∉ x.key → none ∉ x.rowKey := fun h hx => h (mem_of_mem_take hx)
  have hcolumnNull : ∀ {x : Group N}, none ∉ x.key → none ∉ x.columnKey := fun h hx => h (mem_of_mem_drop hx)
  -- the length of a path is the depth of its group
  have hrowDepth := congrArg List.length hrow
  rw [length_path (hrowNull hnull), length_path (hrowNull hnull'), (Group.length_keys hg).1, (Group.length_keys hg').1]
    at hrowDepth
  have hcolumnDepth := congrArg List.length hcolumn
  rw [length_path (hcolumnNull hnull), length_path (hcolumnNull hnull'), (Group.length_keys hg).2,
    (Group.length_keys hg').2] at hcolumnDepth
  apply group_eq_of_client hwire hg hg' hrowDepth hcolumnDepth
  rw [← g.rowKey_append_columnKey, ← g'.rowKey_append_columnKey, map_append, map_append,
    map_client_eq (hrowNull hnull), map_client_eq (hcolumnNull hnull), map_client_eq (hrowNull hnull'),
    map_client_eq (hcolumnNull hnull'), hrow, hcolumn]

/-! ## No cell is lost or confused -/

/-- Different result rows get different keys, and their aggregates are found under them. -/
structure NoCellLost (E : PivotEngine N) (W : Wire N) (q : ORMPivotInput) (t : List (PivotRow N))
    (cells : List (PivotCell N)) (kept : Group N → Prop) : Prop where
  distinct : (E.result q t).Pairwise fun g g' => kept g → kept g' → keys E W q t g ≠ keys E W q t g'
  found : ∀ g ∈ E.result q t, kept g → ∀ v ∈ q.values, E.aggregateOf q t g v ≠ none →
    ∃ rowKey columnKey, keys E W q t g = some (rowKey, columnKey) ∧
      ⟨rowKey, columnKey, v.alias, W.toCellValue (W.client (E.aggregateOf q t g v))⟩ ∈
        (W.mapPivotResponse (cells.map W.response) q.rows q.columns).cells

omit [DecidableEq N] in
theorem mem_mapped_cells {cells : List (PivotCell N)} {cell : PivotCell N} {e : CellEntry}
    {x : String × Option (Scalar Numeral)} {rows columns : List String} (hcell : cell ∈ cells)
    (hentry : cellEntry rows columns (W.response cell) = some e) (hx : x ∈ e.values) :
    ⟨pathKey e.rowPath, pathKey e.columnPath, x.1, W.toCellValue x.2⟩ ∈
      (W.mapPivotResponse (cells.map W.response) rows columns).cells := by
  apply mem_flatMap.mpr
  exact ⟨e, mem_filterMap.mpr ⟨W.response cell, mem_map_of_mem hcell, hentry⟩, mem_map_of_mem hx⟩

/-- The groups without `NULL` that have headers keep their cells, under keys of their own. -/
theorem pivot_cells_kept (E : PivotEngine N) (W : Wire N) (q : ORMPivotInput) (t : List (PivotRow N))
    (haccept : E.accept q = .ok t) (hnames : NamesApart E.label q) (hwire : W.KeepsApart q t) :
    ∃ cells, E.ORMPivot q = .ok cells ∧ NoCellLost E W q t cells fun g => g.Shown q ∧ none ∉ g.key := by
  have hknown : ∀ v ∈ q.values, v.aggregation ∈ aggregations := fun v hv => E.aggregation_of_accept haccept hv
  refine ⟨_, E.ORMPivot_eq haccept, ?_, ?_⟩
  · apply E.nodup_result.imp_of_mem
    intro g g' hg hg' hne hkept hkept' hkeys
    exact hne (keys_inj hnames hknown hwire (E.mem_result.mp hg) (E.mem_result.mp hg') hkept.1 hkept'.1 hkept.2
      hkept'.2 hkeys)
  rintro g hg ⟨hshown, hnull⟩ v hv -
  have hrollup := E.mem_result.mp hg
  refine ⟨_, _, keys_eq hnames hknown hrollup hshown hnull, ?_⟩
  obtain ⟨-, -, hvalues⟩ := E.cell_eq hnames hknown hrollup
  exact mem_mapped_cells (mem_map_of_mem hg) (cellEntry_cell hnames hknown hrollup hshown hnull)
    (mem_map_of_mem (hvalues v hv))

end

section

/-- A number as the client prints it. -/
def Numeral.ofNat (n : Nat) : Numeral where
  text := Nat.toDigits 10 n
  nonempty := Nat.toDigits_ne_nil
  chars c hc := .inl (Nat.isDigit_of_mem_toDigits (by decide) (by decide) hc)

def rowOf (fields : List (String × Scalar Nat)) : PivotRow Nat := fun f => fields.lookup f

/-- A table of orders; every aggregate counts. -/
def salesEngine (t : List (PivotRow Nat)) : PivotEngine Nat where
  canRead := true
  model _ := some {
    name := "sales.order",
    fields := [{ name := "region" }, { name := "city" }, { name := "id" }, { name := "id_count" }] }
  transient _ := false
  denied _ _ := none
  compileDomain _ _ := .ok fun _ => true
  readTx := .ok ()
  table _ := t
  aggregate _ values := some (.num (values.filter Option.isSome).length)
  label := id
  order := id
  order_perm groups := List.Perm.refl groups

def salesWire : Wire Nat := ⟨Numeral.ofNat, fun _ => none⟩

def salesBy (rows columns : List String) : ORMPivotInput := ⟨"sales.order", "", rows, columns, [⟨"id", "count"⟩]⟩

/-- Three orders in two regions. -/
def sales : List (PivotRow Nat) :=
  [rowOf [("region", .str "east"), ("city", .str "Accra"), ("id", .num 1)],
    rowOf [("region", .str "east"), ("city", .str "Tema"), ("id", .num 2)],
    rowOf [("region", .str "west"), ("city", .str "Tema"), ("id", .num 3)]]

theorem salesBy_namesApart : NamesApart id (salesBy ["region"] ["city"]) where
  dims_fit _ _ := ⟨rfl, rfl⟩
  values_fit _ _ := rfl
  dims_nodup := by decide
  values_apart := by decide
  groupings_apart := by decide

/-- No dimension is a number. -/
theorem sales_keepsApart : salesWire.KeepsApart (salesBy ["region"] ["city"]) sales := by
  intro f hf r hr _ _ m _ hm
  have hstr : ∀ r ∈ sales, ∀ f ∈ ["region", "city"], ∃ s, r f = some (.str s) := by
    intro r hr f hf
    simp only [sales, mem_cons, not_mem_nil, or_false] at hr hf
    rcases hr with rfl | rfl | rfl <;> rcases hf with rfl | rfl <;> exact ⟨_, rfl⟩
  obtain ⟨s, hs⟩ := hstr r hr f hf
  rw [hs] at hm
  cases hm

/-- Three of the groups of these orders have headers on both axes; two of them share their column. -/
theorem pivot_cells_kept_sales :
    (((salesEngine sales).result (salesBy ["region"] ["city"]) sales).filter fun g =>
      0 < g.rowDepth ∧ 0 < g.columnDepth).length = 3 ∧
    ∃ cells, (salesEngine sales).ORMPivot (salesBy ["region"] ["city"]) = .ok cells ∧
      NoCellLost (salesEngine sales) salesWire (salesBy ["region"] ["city"]) sales cells fun g =>
        g.Shown (salesBy ["region"] ["city"]) ∧ none ∉ g.key :=
  ⟨by decide, pivot_cells_kept (salesEngine sales) salesWire (salesBy ["region"] ["city"]) sales rfl salesBy_namesApart
    sales_keepsApart⟩

/-- One order of the region `east`, without a city. -/
def sale : PivotRow Nat := rowOf [("region", .str "east"), ("id", .num 7)]

/-- Two orders with a field that has the name of the value column. -/
def tagged : List (PivotRow Nat) :=
  [rowOf [("id_count", .str "a"), ("id", .num 1)], rowOf [("id_count", .str "b"), ("id", .num 2)]]

/-- Two orders that differ in the last digit of their numbers. -/
def numbered : List (PivotRow Nat) := [rowOf [("id", .num 2)], rowOf [("id", .num 3)]]

/-- A client that rounds as `JSON.parse` does above `2 ^ 53`. -/
def roundingWire : Wire Nat := ⟨fun n => Numeral.ofNat (n / 2 * 2), fun _ => none⟩

/-- Two result rows with the same keys lose one of them. -/
theorem not_noCellLost {q : ORMPivotInput} {t : List (PivotRow Nat)} {W : Wire Nat} {kept : Group Nat → Prop}
    {cells : List (PivotCell Nat)} {pre post : List (Group Nat)} {g g' : Group Nat}
    (hresult : (salesEngine t).result q t = pre ++ g :: g' :: post) (hg : kept g) (hg' : kept g')
    (hkeys : keys (salesEngine t) W q t g = keys (salesEngine t) W q t g') :
    ¬ NoCellLost (salesEngine t) W q t cells kept := by
  intro hno
  have hdistinct := hno.distinct
  rw [hresult, pairwise_append, pairwise_cons] at hdistinct
  exact hdistinct.2.1.1 g' mem_cons_self hg hg' hkeys

/-- The grand total has no cell; the order without a city has the keys of its region's subtotal; a value column with
    the name of a dimension takes its place; and numbers that the client takes for one have one key. -/
theorem pivot_total_dropped_null_confused :
    (¬ ∀ (E : PivotEngine Nat) (W : Wire Nat) (q : ORMPivotInput) (t : List (PivotRow Nat)), E.accept q = .ok t →
      NamesApart E.label q → W.KeepsApart q t →
      ∃ cells, E.ORMPivot q = .ok cells ∧ NoCellLost E W q t cells fun _ => True) ∧
    (¬ ∀ (E : PivotEngine Nat) (W : Wire Nat) (q : ORMPivotInput) (t : List (PivotRow Nat)), E.accept q = .ok t →
      NamesApart E.label q → W.KeepsApart q t →
      ∃ cells, E.ORMPivot q = .ok cells ∧ NoCellLost E W q t cells fun g => g.Shown q) ∧
    (¬ ∀ (E : PivotEngine Nat) (W : Wire Nat) (q : ORMPivotInput) (t : List (PivotRow Nat)), E.accept q = .ok t →
      W.KeepsApart q t →
      ∃ cells, E.ORMPivot q = .ok cells ∧ NoCellLost E W q t cells fun g => g.Shown q ∧ none ∉ g.key) ∧
    ¬ ∀ (E : PivotEngine Nat) (W : Wire Nat) (q : ORMPivotInput) (t : List (PivotRow Nat)), E.accept q = .ok t →
      NamesApart E.label q →
      ∃ cells, E.ORMPivot q = .ok cells ∧ NoCellLost E W q t cells fun g => g.Shown q ∧ none ∉ g.key := by
  have hnames (rows : List String) (hrows : rows ∈ [["region"], ["region", "city"], ["id"]]) :
      NamesApart id (salesBy rows []) := by
    simp only [mem_cons, not_mem_nil, or_false] at hrows
    rcases hrows with rfl | rfl | rfl <;>
      exact ⟨fun _ _ => ⟨rfl, rfl⟩, fun _ _ => rfl, by decide, by decide, by decide⟩
  have hsale (rows : List String) : salesWire.KeepsApart (salesBy rows []) [sale] := by
    intro f _ r hr r' hr' m n hm hn _
    rw [mem_singleton.mp hr] at hm
    rw [mem_singleton.mp hr', hm] at hn
    exact Scalar.num.inj (Option.some.inj hn)
  refine ⟨fun h => ?_, fun h => ?_, fun h => ?_, fun h => ?_⟩
  · obtain ⟨cells, -, hno⟩ := h (salesEngine [sale]) salesWire (salesBy ["region"] []) [sale] rfl
      (hnames _ (by decide)) (hsale _)
    obtain ⟨_, _, hkeys, -⟩ := hno.found ⟨0, 0, []⟩ (by decide) trivial ⟨"id", "count"⟩ (by decide)
      (by decide)
    have hnone : keys (salesEngine [sale]) salesWire (salesBy ["region"] []) [sale] ⟨0, 0, []⟩ = none := by decide
    rw [hnone] at hkeys
    cases hkeys
  · obtain ⟨cells, -, hno⟩ := h (salesEngine [sale]) salesWire (salesBy ["region", "city"] []) [sale] rfl
      (hnames _ (by decide)) (hsale _)
    have hresult : (salesEngine [sale]).result (salesBy ["region", "city"] []) [sale] =
        [⟨0, 0, []⟩] ++ [⟨1, 0, [some (.str "east")]⟩, ⟨2, 0, [some (.str "east"), none]⟩] := by decide
    exact not_noCellLost hresult ⟨by simp, by simp [salesBy]⟩ ⟨by simp, by simp [salesBy]⟩ (by decide) hno
  · have hwire : salesWire.KeepsApart (salesBy ["id_count"] []) tagged := by
      intro f hf r hr _ _ m _ hm
      obtain rfl := mem_singleton.mp hf
      rcases mem_pair.mp hr with rfl | rfl <;> cases hm
    obtain ⟨cells, -, hno⟩ := h (salesEngine tagged) salesWire (salesBy ["id_count"] []) tagged rfl hwire
    have hresult : (salesEngine tagged).result (salesBy ["id_count"] []) tagged =
        [⟨0, 0, []⟩] ++ [⟨1, 0, [some (.str "a")]⟩, ⟨1, 0, [some (.str "b")]⟩] := by decide
    exact not_noCellLost hresult ⟨⟨by simp, by simp [salesBy]⟩, by simp⟩ ⟨⟨by simp, by simp [salesBy]⟩, by simp⟩
      (by decide) hno
  · obtain ⟨cells, -, hno⟩ := h (salesEngine numbered) roundingWire (salesBy ["id"] []) numbered rfl
      (hnames _ (by decide))
    have hresult : (salesEngine numbered).result (salesBy ["id"] []) numbered =
        [⟨0, 0, []⟩] ++ [⟨1, 0, [some (.num 2)]⟩, ⟨1, 0, [some (.num 3)]⟩] := by decide
    exact not_noCellLost hresult ⟨⟨by simp, by simp [salesBy]⟩, by simp⟩ ⟨⟨by simp, by simp [salesBy]⟩, by simp⟩
      (by decide) hno

end

end GoErp.Pivot
