import Mathlib.Algebra.Ring.Nat
import GoErp.Db.Exec
import GoErp.Lib.Arrangement
import GoErp.Orm.Model

/-!
# `Orm.SearchRead` — lists of records, page by page

`ORMSearchRead` and `orderLimitOffsetClause` (`wasm/host_orm.go`), and the order that `dispatchORMList`
(`dispatch_orm.go`) asks for. A request without a cursor is answered in the requested order, one with a cursor in the
order of the primary key, after the row whose key the cursor holds. So rows are lost or repeated unless the first page
is the beginning of the list in the order of the keys (`search_read_complete_iff`). The cursor is taken from the record
as the caller sees it, after the rules on its fields.

`ORDER BY` leaves the order of ties open, so an answer is one of several (`SearchTable.Sorted`). Left out are the fields
a delegate adds and the expansion of relations.
-/

namespace GoErp.Orm

open Lib List

/-! ## Requests -/

structure SearchReadInput where
  domain : String
  fields : List String
  order : String
  limit : Int
  offset : Int
  cursor : String
deriving DecidableEq, Repr

inductive SearchError where
  | noPrimaryKey
  /-- `field %s is not declared on %s` -/
  | fieldUnknown (field : String)
  /-- `field %s is a One2Many relation and cannot be selected directly` -/
  | one2Many (field : String)
  | domainInvalid
  /-- an error of Postgres -/
  | sql
deriving DecidableEq, Repr

def defaultListLimit : Int := 50

def maxListLimit : Int := 100

def digits (raw : List Char) : Option Nat :=
  if raw ≠ [] ∧ raw.all Char.isDigit then some (raw.foldl (fun n c => 10 * n + (c.toNat - '0'.toNat)) 0) else none

/-- `strconv.Atoi`; a number outside 64 bits is an error. -/
def atoi : List Char → Option Int
  | '-' :: raw => ((digits raw).filter (· ≤ 2 ^ 63)).map fun n => -(n : Int)
  | '+' :: raw => ((digits raw).filter (· < 2 ^ 63)).map fun n => (n : Int)
  | raw => ((digits raw).filter (· < 2 ^ 63)).map fun n => (n : Int)

/-- The request of `dispatchORMList`: of the fields of `sort` the first counts, and the page size is bounded. -/
def dispatchORMList (domain : String) (fields : List String) (sort limit cursor : String) : SearchReadInput where
  domain := domain
  fields := fields
  order :=
    match sort.toList.takeWhile (· ≠ ',') with
    | '-' :: field => String.ofList field ++ " DESC"
    | field => String.ofList field
  limit :=
    match atoi limit.toList with
    | none => defaultListLimit
    | some parsed => if 0 < parsed then min parsed maxListLimit else defaultListLimit
  offset := 0
  cursor := cursor

/-- `strings.CutSuffix` -/
def cutSuff (suff s : List Char) : Option (List Char) :=
  if suff.isSuffixOf s then some (s.take (s.length - suff.length)) else none

/-- `orderByExpr`: the column, and whether the order is descending. -/
def orderByExpr (order : String) : String × Bool :=
  let trimmed := Db.trimSpace order.toList
  match cutSuff " DESC".toList trimmed with
  | some field => (String.ofList (Db.trimSpace field), true)
  | none => (String.ofList (Db.trimSpace ((cutSuff " ASC".toList trimmed).getD trimmed)), false)

/-- `readableColumns` -/
def readableColumns (md : Model) (requested : List String) : Except SearchError (List String) :=
  if requested = [] then .ok ((md.fields.filter fun f => f.kind ≠ .one2Many).map Field.name)
  else
    match requested.find? fun name =>
      !md.hasField name || md.fields.any fun f => f.name = name && f.kind = .one2Many with
    | none => .ok requested
    | some name => if md.hasField name then .error (.one2Many name) else .error (.fieldUnknown name)

/-- `delegateQueryColumns`: the primary key is read even if it is not asked for. -/
def delegateQueryColumns (md : Model) (columns : List String) (pk : String) : List String :=
  let own := columns.filter md.hasField
  let delegates := ((md.fields.filter fun f => f.kind = .delegate).map Field.name).filter (· ∉ own)
  let all := own ++ delegates
  if pk ∈ all then all else all ++ [pk]

/-- A selected column: join relations have none of their own. -/
def selectColumn (md : Model) (r : Row) (column : String) : Value :=
  if md.fields.any fun f => f.name = column && f.kind.isJoinRelation then .null else r column

section

variable {κ : Type} [LinearOrder κ]

/-- A table as a search sees it. -/
structure SearchTable (κ : Type) where
  md : Model
  /-- the rows the tenant's policies let through -/
  rows : List Row
  columns : List String
  /-- `compileDomain`: the condition of a filter, if it can be read -/
  condition : String → Option (Row → Bool)
  /-- the place of a value in the order of its column; `NULL` comes last -/
  rank : String → Value → κ
  /-- `applyFieldMasking`: what the caller sees of a column; `none` if it is omitted -/
  mask : String → Value → Option Value
  /-- `fmt.Sprintf("%v", …)` -/
  print : Value → String
  /-- a text as the type of the primary key reads it -/
  parse : String → Option Value

structure Query where
  holds : Row → Bool
  order : String
  descending : Bool
  limit : Int
  offset : Int

namespace SearchTable

/-- `activeModelWhere` -/
def active (t : SearchTable κ) (r : Row) : Bool := !t.md.hasField "deleted_at" || r "deleted_at" = .null

/-- The place of a row in the order of the primary key. -/
def key (t : SearchTable κ) (pk : String) (r : Row) : κ := t.rank pk (r pk)

/-- The first half of `ORMSearchRead`: the statement. -/
def query (t : SearchTable κ) (pk : String) (input : SearchReadInput) : Except SearchError Query := do
  let _ ← readableColumns t.md input.fields
  let holds ← match t.condition input.domain with
    | none => .error .domainInvalid
    | some holds => .ok holds
  let holds ← if input.cursor = "" then .ok holds else
    match t.parse input.cursor with
    | none => .error .sql
    | some v => .ok fun r => holds r && t.rank pk v < t.key pk r
  let order := orderByExpr (if input.cursor ≠ "" ∨ input.order = "" then pk else input.order)
  if order.1 ∈ t.columns then
    .ok { holds := fun r => holds r && t.active r, order := order.1, descending := order.2, limit := input.limit,
          offset := input.offset }
  else .error .sql

/-- The rows in the order of the query; those that tie come in any order. -/
def Sorted (t : SearchTable κ) (q : Query) (sorted : List Row) : Prop :=
  if q.descending then
    Arrangement (fun r => OrderDual.toDual (t.rank q.order (r q.order))) (t.rows.filter q.holds) sorted
  else Arrangement (fun r => t.rank q.order (r q.order)) (t.rows.filter q.holds) sorted

end SearchTable

/-- `LIMIT` and `OFFSET`, which `orderLimitOffsetClause` leaves out unless they are positive. -/
def Query.page (q : Query) (sorted : List Row) : List Row :=
  let rest := sorted.drop q.offset.toNat
  if 0 < q.limit then rest.take q.limit.toNat else rest

structure SearchReadOutput where
  records : List Record
  nextCursor : String

/-- A record as `expandRelations` leaves it. -/
def SearchTable.masked (t : SearchTable κ) (queryColumns : List String) (r : Row) : Record :=
  queryColumns.filterMap fun c => (t.mask c (selectColumn t.md r c)).map fun v => (c, v)

/-- The second half of `ORMSearchRead`, on the rows the statement returned. -/
def SearchTable.output (t : SearchTable κ) (pk : String) (input : SearchReadInput) (columns : List String)
    (rows : List Row) : SearchReadOutput :=
  let queryColumns := delegateQueryColumns t.md columns pk
  let records : List Record := rows.map (t.masked queryColumns)
  let nextCursor :=
    if 0 < input.limit ∧ (records.length : Int) = input.limit then
      match records.getLast? with
      | none => ""
      | some last =>
        match last.get? pk with
        | none => ""
        | some v => t.print v
    else ""
  { records := records.map fun r => r.filter fun x => x.1 ∈ columns, nextCursor }

/-- `ORMSearchRead` may answer the request with `out`, from these rows. -/
def SearchRead (t : SearchTable κ) (input : SearchReadInput) (rows : List Row) (out : SearchReadOutput) : Prop :=
  ∃ pk columns q sorted, t.md.primaryKeyColumn = some pk ∧ readableColumns t.md input.fields = .ok columns ∧
    t.query pk input = .ok q ∧ t.Sorted q sorted ∧ rows = q.page sorted ∧ out = t.output pk input columns rows

/-! ## Chains of requests -/

variable (t : SearchTable κ) (input : SearchReadInput)

/-- The pages of a request that is repeated with the cursor it returned until that is empty. -/
inductive Chain : String → List (List Row) → Prop where
  | last {cursor : String} {rows : List Row} {out : SearchReadOutput}
      (h : SearchRead t { input with cursor := cursor } rows out) (hend : out.nextCursor = "") : Chain cursor [rows]
  | more {cursor : String} {rows : List Row} {out : SearchReadOutput} {pages : List (List Row)}
      (h : SearchRead t { input with cursor := cursor } rows out) (hnext : out.nextCursor ≠ "")
      (hrest : Chain out.nextCursor pages) : Chain cursor (rows :: pages)

/-- Every request is answered, and whatever the answers the chain ends. -/
inductive Ends : String → Prop where
  | intro {cursor : String} (answered : ∃ rows out, SearchRead t { input with cursor := cursor } rows out)
      (next : ∀ rows out, SearchRead t { input with cursor := cursor } rows out → out.nextCursor ≠ "" →
        Ends out.nextCursor) : Ends cursor

/-- The chain ends, and its pages hold every row once. -/
structure Complete (rows : List Row) : Prop where
  ends : Ends t input ""
  all : ∀ pages, Chain t input "" pages → pages.flatten.Perm rows

/-- The text of a row's key, as the caller sees it; empty if it is omitted. -/
def SearchTable.cursorOf (pk : String) (r : Row) : String :=
  match t.mask pk (selectColumn t.md r pk) with
  | none => ""
  | some v => t.print v

/-- The column of the primary key orders and finds the rows: no two have the same key, and what the caller sees of a key
is printed as a text that is not empty and that reads as the key. -/
structure KeyOk (pk : String) (rows : List Row) : Prop where
  order : orderByExpr pk = (pk, false)
  column : pk ∈ t.columns
  distinct : (rows.map (t.key pk)).Nodup
  printed : ∀ r ∈ rows, t.cursorOf pk r ≠ ""
  parsed : ∀ r ∈ rows, (t.parse (t.cursorOf pk r)).map (t.rank pk) = some (t.key pk r)

/-- The last of the first `n` has the greatest key of them, and the others have greater ones. -/
def CutsAt (pk : String) (n : Nat) (sorted : List Row) (last : Row) : Prop :=
  (sorted.take n).getLast? = some last ∧ (∀ r ∈ sorted.take n, t.key pk r ≤ t.key pk last) ∧
    ∀ r ∈ sorted.drop n, t.key pk last < t.key pk r

/-- All matching rows fit on a page that is not full. -/
def OnePage (q : Query) : Prop := q.limit ≤ 0 ∨ ((t.rows.filter q.holds).length : Int) < q.limit

/-- The first page begins the list in the order of the keys, whatever the order of ties. -/
def FirstPageInKeyOrder (pk : String) (q : Query) : Prop :=
  ∀ sorted, t.Sorted q sorted → ∃ last, CutsAt t pk q.limit.toNat sorted last

variable {t input} {pk : String}

theorem mem_delegateQueryColumns (md : Model) (columns : List String) (pk : String) :
    pk ∈ delegateQueryColumns md columns pk := by
  unfold delegateQueryColumns
  dsimp only
  split
  · assumption
  · simp

/-- A column of a record that is given column by column, where some are left out. -/
theorem get?_filterMap_columns (columns : List String) (f : String → Option Value) (c : String) :
    Record.get? (columns.filterMap fun c => (f c).map fun v => (c, v)) c = if c ∈ columns then f c else none := by
  induction columns with
  | nil => rfl
  | cons x columns ih =>
    by_cases hx : x = c
    · subst hx
      cases hf : f x with
      | none => simp [ih, hf]
      | some v => simp [hf, Record.get?_cons]
    · cases hf : f x with
      | none => simp [ih, hf, Ne.symm hx]
      | some v => simp [hf, Record.get?_cons, ih, hx, Ne.symm hx]

omit [LinearOrder κ] in
theorem output_nextCursor (columns : List String) (rows : List Row) : (t.output pk input columns rows).nextCursor =
      if 0 < input.limit ∧ (rows.length : Int) = input.limit then
        match rows.getLast? with
        | none => ""
        | some last => t.cursorOf pk last
      else "" := by
  unfold SearchTable.output
  dsimp only
  rw [length_map, getLast?_map]
  split
  · cases rows.getLast? with
    | none => rfl
    | some last =>
      dsimp only [Option.map_some]
      rw [SearchTable.masked, get?_filterMap_columns, if_pos (mem_delegateQueryColumns t.md columns pk)]
      rfl
  · rfl

/-! ## The pages after a cursor -/

/-- What is left after a page that cuts the list. -/
theorem CutsAt.filter_eq {n : Nat} {sorted : List Row} {last : Row} (h : CutsAt t pk n sorted last) :
    sorted.filter (fun r => t.key pk last < t.key pk r) = sorted.drop n := by
  obtain ⟨-, hbefore, hafter⟩ := h
  conv_lhs => rw [← take_append_drop n sorted]
  rw [filter_append, filter_eq_nil_iff.mpr, List.filter_eq_self.mpr, nil_append]
  · intro r hr
    simpa using hafter r hr
  · intro r hr
    simpa using hbefore r hr

/-- In the order of distinct keys every page cuts the list. -/
theorem cutsAt_of_sorted {sorted : List Row} (horder : sorted.Pairwise fun a b => t.key pk a ≤ t.key pk b)
    (hdistinct : (sorted.map (t.key pk)).Nodup) {n : Nat} (hn : 0 < n) (hlen : n ≤ sorted.length) :
    ∃ last, CutsAt t pk n sorted last := by
  have hstrict : sorted.Pairwise fun a b => t.key pk a < t.key pk b := by
    rw [List.Nodup, pairwise_map] at hdistinct
    exact (horder.and hdistinct).imp fun hab => lt_of_le_of_ne hab.1 hab.2
  have hne : sorted.take n ≠ [] := by
    intro hnil
    have := congrArg List.length hnil
    rw [length_take] at this
    simp only [length_nil] at this
    omega
  obtain ⟨init, last, hinit⟩ := eq_nil_or_concat (sorted.take n) |>.resolve_left hne
  rw [concat_eq_append] at hinit
  have hsplit : sorted = (init ++ [last]) ++ sorted.drop n := by rw [← hinit, take_append_drop]
  rw [hsplit, pairwise_append, pairwise_append] at hstrict
  refine ⟨last, by rw [hinit]; simp, fun r hr => ?_, fun r hr => ?_⟩
  · rw [hinit] at hr
    rcases mem_append.mp hr with hr | hr
    · exact (hstrict.1.2.2 r hr last (by simp)).le
    · rw [mem_singleton.mp hr]
  · exact hstrict.2.2 last (by simp) r hr

theorem query_eq_ok {holds : Row → Bool} (hkey : KeyOk t pk (t.rows.filter fun r => holds r && t.active r))
    (hcond : t.condition input.domain = some holds) {columns : List String}
    (hcolumns : readableColumns t.md input.fields = .ok columns) {cursor : String} (hcursor : cursor ≠ "") {v : Value}
    (hv : t.parse cursor = some v) :
    t.query pk { input with cursor := cursor } = .ok
      { holds := fun r => (holds r && t.rank pk v < t.key pk r) && t.active r, order := pk, descending := false,
        limit := input.limit, offset := input.offset } := by
  simp only [SearchTable.query, hcolumns, hcond, hcursor, hv, hkey.order, hkey.column, ne_eq, not_false_eq_true,
    true_or,
    if_true, if_false]
  rfl

/-- What the statement of a request without a cursor is. -/
theorem query_inv {q : Query} (h : t.query pk { input with cursor := "" } = .ok q) :
    ∃ columns holds, readableColumns t.md input.fields = .ok columns ∧ t.condition input.domain = some holds ∧
      q = { holds := fun r => holds r && t.active r,
            order := (orderByExpr (if input.order = "" then pk else input.order)).1,
            descending := (orderByExpr (if input.order = "" then pk else input.order)).2,
            limit := input.limit, offset := input.offset } := by
  cases hcolumns : readableColumns t.md input.fields with
  | error e =>
    simp only [SearchTable.query, hcolumns] at h
    exact absurd h (by simp [bind, Except.bind])
  | ok columns =>
    cases hcond : t.condition input.domain with
    | none =>
      simp only [SearchTable.query, hcolumns, hcond] at h
      exact absurd h (by simp [bind, Except.bind])
    | some holds =>
      simp only [SearchTable.query, hcolumns, hcond, ne_eq, not_true_eq_false, false_or, if_true] at h
      refine ⟨columns, holds, rfl, rfl, ?_⟩
      generalize orderByExpr (if input.order = "" then pk else input.order) = order at h ⊢
      change (if order.1 ∈ t.columns then _ else _) = _ at h
      split at h
      · exact (Except.ok.inj h).symm
      · simp at h

omit [LinearOrder κ] in
/-- A page is all that is left, or it is full and its last row gives the cursor. -/
theorem page_cases (t : SearchTable κ) (pk : String) (input : SearchReadInput) (q : Query) (hoffset : q.offset = 0)
    (hlimit : q.limit = input.limit) (columns : List String) (sorted : List Row) :
    q.page sorted = sorted ∧ (t.output pk input columns (q.page sorted)).nextCursor = "" ∧
        (q.limit ≤ 0 ∨ (sorted.length : Int) < q.limit) ∨
      0 < q.limit.toNat ∧ q.limit.toNat ≤ sorted.length ∧ q.page sorted = sorted.take q.limit.toNat ∧
        ∃ last, (sorted.take q.limit.toNat).getLast? = some last ∧
          (t.output pk input columns (q.page sorted)).nextCursor = t.cursorOf pk last := by
  have hdrop : sorted.drop q.offset.toNat = sorted := by rw [hoffset]; rfl
  rw [output_nextCursor, ← hlimit]
  unfold Query.page
  rw [hdrop]
  by_cases hpos : 0 < q.limit
  · rw [if_pos hpos]
    by_cases hfull : q.limit.toNat ≤ sorted.length
    · right
      have hlen : ((sorted.take q.limit.toNat).length : Int) = q.limit := by
        rw [length_take, Nat.min_eq_left hfull]
        omega
      have hne : sorted.take q.limit.toNat ≠ [] := by
        intro hnil
        rw [hnil] at hlen
        simp only [length_nil] at hlen
        omega
      rw [if_pos ⟨hpos, hlen⟩, getLast?_eq_some_getLast hne]
      exact ⟨by omega, hfull, rfl, _, rfl, rfl⟩
    · left
      have htake : sorted.take q.limit.toNat = sorted := take_of_length_le (by omega)
      have hshort : (sorted.length : Int) < q.limit := by omega
      rw [htake, if_neg fun h => by omega]
      exact ⟨rfl, rfl, .inr hshort⟩
  · left
    rw [if_neg hpos, if_neg fun h => hpos h.1]
    exact ⟨rfl, rfl, .inl (by omega)⟩

section

variable {holds : Row → Bool} {columns : List String}

/-- The rows with a greater key. -/
def SearchTable.after (t : SearchTable κ) (pk : String) (rows : List Row) (k : κ) : List Row :=
  rows.filter fun r => k < t.key pk r

theorem filter_after (k : κ) : t.rows.filter (fun r => (holds r && k < t.key pk r) && t.active r) =
    t.after pk (t.rows.filter fun r => holds r && t.active r) k := by
  rw [SearchTable.after, filter_filter]
  apply filter_congr
  intro r _
  cases holds r <;> cases t.active r <;> simp

/-- A greater key leaves what a smaller one leaves of the rest. -/
theorem after_after (rows : List Row) {k k' : κ} (h : k ≤ k') :
    t.after pk rows k' = t.after pk (t.after pk rows k) k' := by
  rw [SearchTable.after, SearchTable.after, SearchTable.after, filter_filter]
  apply filter_congr
  intro r _
  by_cases hr : k' < t.key pk r
  · simp [hr, lt_of_le_of_lt h hr]
  · simp [hr]

theorem exists_sorted (t : SearchTable κ) (q : Query) : ∃ sorted, t.Sorted q sorted := by
  unfold SearchTable.Sorted
  split
  all_goals exact ⟨_, arrangement_sortBy _ _⟩

theorem SearchRead.sorted {page : List Row} {out : SearchReadOutput} (h : SearchRead t input page out)
    (hpk : t.md.primaryKeyColumn = some pk) (hcolumns : readableColumns t.md input.fields = .ok columns)
    (hq : t.query pk input = .ok q) :
    ∃ sorted, t.Sorted q sorted ∧ page = q.page sorted ∧ out = t.output pk input columns page := by
  obtain ⟨pk', columns', q', sorted, hpk', hcolumns', hq', hsorted⟩ := h
  cases hpk.symm.trans hpk'
  cases hcolumns.symm.trans hcolumns'
  cases hq.symm.trans hq'
  exact ⟨sorted, hsorted⟩

/-- **After a cursor nothing is lost**: the pages are in the order of the keys. -/
theorem chain_after (hoffset : input.offset = 0) (hpk : t.md.primaryKeyColumn = some pk)
    (hcolumns : readableColumns t.md input.fields = .ok columns) (hcond : t.condition input.domain = some holds)
    (hkey : KeyOk t pk (t.rows.filter fun r => holds r && t.active r)) :
    ∀ (n : Nat) (cursor : String) (v : Value), cursor ≠ "" → t.parse cursor = some v →
      (t.after pk (t.rows.filter fun r => holds r && t.active r) (t.rank pk v)).length = n →
      Ends t input cursor ∧ ∀ pages, Chain t input cursor pages →
        pages.flatten.Perm (t.after pk (t.rows.filter fun r => holds r && t.active r) (t.rank pk v)) := by
  intro n
  induction n using Nat.strong_induction_on with
  | _ n ih =>
  intro cursor v hcursor hv hn
  let rows := t.rows.filter fun r => holds r && t.active r
  let rest := t.after pk rows (t.rank pk v)
  obtain ⟨q, hq, hqeq⟩ : ∃ q, _ = Except.ok q ∧ _ = q := ⟨_, query_eq_ok hkey hcond hcolumns hcursor hv, rfl⟩
  -- what an answer to the request is
  have hanswer : ∀ {page out}, SearchRead t { input with cursor := cursor } page out →
      ∃ sorted, Arrangement (t.key pk) rest sorted ∧
        (page = sorted ∧ out.nextCursor = "" ∨
          page = sorted.take input.limit.toNat ∧ out.nextCursor ≠ "" ∧ ∃ v', t.parse out.nextCursor = some v' ∧
            (t.after pk rows (t.rank pk v')).Perm (sorted.drop input.limit.toNat) ∧
            (sorted.drop input.limit.toNat).length < sorted.length) := by
    intro page out h
    obtain ⟨sorted, hsorted, rfl, rfl⟩ := h.sorted hpk hcolumns hq
    have hlimit : q.limit = input.limit := by rw [← hqeq]
    have harr : Arrangement (t.key pk) rest sorted := by
      rw [← hqeq] at hsorted
      change Arrangement (t.key pk) (t.rows.filter fun r => (holds r && t.rank pk v < t.key pk r) && t.active r) sorted
        at hsorted
      rw [filter_after] at hsorted
      exact hsorted
    refine ⟨sorted, harr, ?_⟩
    have hcases := page_cases t pk { input with cursor := cursor } q (by rw [← hqeq]; exact hoffset)
      hlimit columns sorted
    rw [hlimit] at hcases
    rcases hcases with ⟨hpage, hnext, -⟩ | ⟨hpos, hfull, hpage, last, hlast, hnext⟩
    · exact .inl ⟨hpage, hnext⟩
    right
    have hdistinct : (sorted.map (t.key pk)).Nodup := by
      have hsub : (rest.map (t.key pk)).Nodup := hkey.distinct.sublist (filter_sublist.map _)
      exact (harr.1.map _).nodup_iff.mpr hsub
    obtain ⟨last', hcut⟩ := cutsAt_of_sorted harr.2 hdistinct hpos hfull
    obtain rfl := Option.some.inj (hlast.symm.trans hcut.1)
    have hmem : last ∈ rest := harr.mem_iff.mp (mem_of_mem_take (mem_of_getLast? hlast))
    obtain ⟨hrow, hgt⟩ := mem_filter.mp hmem
    obtain ⟨v', hv', hrank⟩ := Option.map_eq_some_iff.mp (hkey.parsed last hrow)
    refine ⟨hpage, by rw [hnext]; exact hkey.printed last hrow, v', by rw [hnext]; exact hv', ?_, ?_⟩
    · rw [hrank, after_after rows (of_decide_eq_true hgt).le, ← hcut.filter_eq]
      exact (harr.1.filter _).symm
    · rw [length_drop]
      omega
  -- the rest after a page is shorter
  have hnext : ∀ {page out}, SearchRead t { input with cursor := cursor } page out → out.nextCursor ≠ "" →
      ∃ sorted v', Arrangement (t.key pk) rest sorted ∧ page = sorted.take input.limit.toNat ∧
        (t.after pk rows (t.rank pk v')).Perm (sorted.drop input.limit.toNat) ∧ Ends t input out.nextCursor ∧
        ∀ pages, Chain t input out.nextCursor pages → pages.flatten.Perm (t.after pk rows (t.rank pk v')) := by
    intro page out h hne
    obtain ⟨sorted, harr, ⟨-, hend⟩ | ⟨hpage, -, v', hv', hperm, hlt⟩⟩ := hanswer h
    · exact absurd hend hne
    have hless : (t.after pk rows (t.rank pk v')).length < n := by
      have h1 := hperm.length_eq
      have h2 := harr.1.length_eq
      have h3 : rest.length = n := hn
      omega
    obtain ⟨hends, hall⟩ := ih _ hless out.nextCursor v' hne hv' rfl
    exact ⟨sorted, v', harr, hpage, hperm, hends, hall⟩
  constructor
  · refine ⟨?_, fun page out h hne => ?_⟩
    · obtain ⟨sorted, hsorted⟩ := exists_sorted t q
      exact ⟨_, _, pk, columns, q, sorted, hpk, hcolumns, hq, hsorted, rfl, rfl⟩
    · obtain ⟨-, -, -, -, -, hends, -⟩ := hnext h hne
      exact hends
  intro pages hpages
  cases hpages with
  | last h hend =>
    obtain ⟨sorted, harr, ⟨hpage, -⟩ | ⟨-, hne, -⟩⟩ := hanswer h
    · rw [flatten_singleton, hpage]
      exact harr.1
    · exact absurd hend hne
  | more h hne hrest =>
    obtain ⟨sorted, v', harr, hpage, hperm, -, hall⟩ := hnext h hne
    rw [flatten_cons, hpage]
    have hdrop := (hall _ hrest).trans hperm
    have hboth := hdrop.append_left (sorted.take input.limit.toNat)
    rw [take_append_drop] at hboth
    exact hboth.trans harr.1

/-! ## The whole chain -/

variable {q : Query}

theorem SearchTable.Sorted.perm {sorted : List Row} (h : t.Sorted q sorted) : sorted.Perm (t.rows.filter q.holds) := by
  unfold SearchTable.Sorted at h
  split at h
  · exact h.1
  · exact h.1

theorem Ends.exists_chain {cursor : String} (h : Ends t input cursor) : ∃ pages, Chain t input cursor pages := by
  induction h with
  | intro answered _ ih =>
    obtain ⟨rows, out, hanswer⟩ := answered
    by_cases hnext : out.nextCursor = ""
    · exact ⟨[rows], .last hanswer hnext⟩
    · obtain ⟨pages, hpages⟩ := ih rows out hanswer hnext
      exact ⟨rows :: pages, .more hanswer hnext hpages⟩

/-- What follows from the order in which the first statement returned its rows. -/
def FirstAnswer (t : SearchTable κ) (input : SearchReadInput) (pk : String) (q : Query) (sorted page : List Row)
    (out : SearchReadOutput) : Prop :=
  page = sorted ∧ out.nextCursor = "" ∧ (q.limit ≤ 0 ∨ (sorted.length : Int) < q.limit) ∨
    0 < q.limit.toNat ∧ q.limit.toNat ≤ sorted.length ∧ page = sorted.take q.limit.toNat ∧ out.nextCursor ≠ "" ∧
      ∃ last, (sorted.take q.limit.toNat).getLast? = some last ∧ Ends t input out.nextCursor ∧ ∀ pages,
        Chain t input out.nextCursor pages →
          pages.flatten.Perm (t.after pk (t.rows.filter q.holds) (t.key pk last))

/-- The answers to a request without a cursor. -/
theorem first_answer (hoffset : input.offset = 0) (hpk : t.md.primaryKeyColumn = some pk)
    (hq : t.query pk { input with cursor := "" } = .ok q) (hkey : KeyOk t pk (t.rows.filter q.holds)) :
    (∀ {page out}, SearchRead t { input with cursor := "" } page out →
      ∃ sorted, t.Sorted q sorted ∧ FirstAnswer t input pk q sorted page out) ∧
    ∀ {sorted}, t.Sorted q sorted → ∃ page out, SearchRead t { input with cursor := "" } page out ∧
      FirstAnswer t input pk q sorted page out := by
  obtain ⟨columns, holds, hcolumns, hcond, hqeq⟩ := query_inv hq
  have hlimit : q.limit = input.limit := by rw [hqeq]
  have hoff : q.offset = 0 := by rw [hqeq]; exact hoffset
  have hholds : q.holds = fun r => holds r && t.active r := by rw [hqeq]
  have hfirst : ∀ {sorted}, t.Sorted q sorted → FirstAnswer t input pk q sorted (q.page sorted)
      (t.output pk { input with cursor := "" } columns (q.page sorted)) := by
    intro sorted hsorted
    rcases page_cases t pk { input with cursor := "" } q hoff hlimit columns sorted with
      ⟨hpage, hnext, hshort⟩ | ⟨hpos, hfull, hpage, last, hlast, hnext⟩
    · exact .inl ⟨hpage, hnext, hshort⟩
    have hmem : last ∈ t.rows.filter q.holds :=
      hsorted.perm.mem_iff.mp (mem_of_mem_take (mem_of_getLast? hlast))
    obtain ⟨v, hv, hrank⟩ := Option.map_eq_some_iff.mp (hkey.parsed last hmem)
    have hne := hkey.printed last hmem
    rw [hholds] at hkey
    obtain ⟨hends, hall⟩ := chain_after hoffset hpk hcolumns hcond hkey _ _ v hne hv rfl
    rw [← hnext] at hne hends hall
    rw [← hholds, hrank] at hall
    exact .inr ⟨hpos, hfull, hpage, hne, last, hlast, hends, hall⟩
  constructor
  · intro page out h
    obtain ⟨sorted, hsorted, rfl, rfl⟩ := h.sorted hpk hcolumns hq
    exact ⟨sorted, hsorted, hfirst hsorted⟩
  · intro sorted hsorted
    exact ⟨_, _, ⟨pk, columns, q, sorted, hpk, hcolumns, hq, hsorted, rfl, rfl⟩, hfirst hsorted⟩

/-- A page that leaves exactly the rows with greater keys cuts the list. -/
theorem cutsAt_of_perm {n : Nat} {sorted rows : List Row} {last : Row} (hperm : sorted.Perm rows)
    (hlast : (sorted.take n).getLast? = some last) (hrest : (t.after pk rows (t.key pk last)).Perm (sorted.drop n)) :
    CutsAt t pk n sorted last := by
  have hafter : ∀ r ∈ sorted.drop n, t.key pk last < t.key pk r := by
    intro r hr
    simpa using (mem_filter.mp (hrest.mem_iff.mpr hr)).2
  refine ⟨hlast, fun r hr => ?_, hafter⟩
  -- counting the rows with greater keys: all of them are behind the page
  have hsplit : t.after pk sorted (t.key pk last) = t.after pk (sorted.take n) (t.key pk last) ++ sorted.drop n := by
    conv_lhs => rw [← take_append_drop n sorted]
    rw [SearchTable.after, filter_append, SearchTable.after]
    congr 1
    apply List.filter_eq_self.mpr
    intro r hr
    simpa using hafter r hr
  have hlen := ((hperm.filter fun r => t.key pk last < t.key pk r).trans hrest).length_eq
  rw [show sorted.filter (fun r => t.key pk last < t.key pk r) = _ from hsplit, length_append] at hlen
  have hnil : t.after pk (sorted.take n) (t.key pk last) = [] := length_eq_zero_iff.mp (by omega)
  have hnot := filter_eq_nil_iff.mp hnil r hr
  simpa using hnot

/-- A page that is not full ends the chain. -/
theorem complete_of_onePage (hoffset : input.offset = 0) (hpk : t.md.primaryKeyColumn = some pk)
    (hq : t.query pk { input with cursor := "" } = .ok q) (hone : OnePage t q) :
    Complete t input (t.rows.filter q.holds) := by
  obtain ⟨columns, holds, hcolumns, -, hqeq⟩ := query_inv hq
  have hlimit : q.limit = input.limit := by rw [hqeq]
  have hoff : q.offset = 0 := by rw [hqeq]; exact hoffset
  have hanswer : ∀ {page out}, SearchRead t { input with cursor := "" } page out →
      page.Perm (t.rows.filter q.holds) ∧ out.nextCursor = "" := by
    intro page out h
    obtain ⟨sorted, hsorted, rfl, rfl⟩ := h.sorted hpk hcolumns hq
    rcases page_cases t pk { input with cursor := "" } q hoff hlimit columns sorted with
      ⟨hpage, hnext, -⟩ | ⟨hpos, hfull, -⟩
    · rw [hnext, hpage]
      exact ⟨hsorted.perm, rfl⟩
    -- a full page does not fit
    rw [hsorted.perm.length_eq] at hfull
    unfold OnePage at hone
    omega
  refine ⟨⟨?_, fun page out h hne => absurd (hanswer h).2 hne⟩, fun pages hpages => ?_⟩
  · obtain ⟨sorted, hsorted⟩ := exists_sorted t q
    exact ⟨_, _, pk, columns, q, sorted, hpk, hcolumns, hq, hsorted, rfl, rfl⟩
  cases hpages with
  | last h _ =>
    rw [flatten_singleton]
    exact (hanswer h).1
  | more h hne _ => exact absurd (hanswer h).2 hne

theorem complete_iff (t : SearchTable κ) (input : SearchReadInput) (hoffset : input.offset = 0)
    (hpk : t.md.primaryKeyColumn = some pk) (hq : t.query pk { input with cursor := "" } = .ok q)
    (hkey : KeyOk t pk (t.rows.filter q.holds)) :
    Complete t input (t.rows.filter q.holds) ↔ OnePage t q ∨ FirstPageInKeyOrder t pk q := by
  obtain ⟨hanswer, hexists⟩ := first_answer hoffset hpk hq hkey
  constructor
  · intro hcomplete
    by_cases hone : OnePage t q
    · exact .inl hone
    refine .inr fun sorted hsorted => ?_
    obtain ⟨page, out, hout, ⟨-, -, hshort⟩ | ⟨-, -, rfl, hne, last, hlast, hends, hall⟩⟩ := hexists hsorted
    · rw [hsorted.perm.length_eq] at hshort
      exact absurd hshort hone
    -- the pages after the first hold what the first leaves, and the rows with greater keys
    obtain ⟨pages, hpages⟩ := hends.exists_chain
    have hpages_all := hcomplete.all _ (.more hout hne hpages)
    have hboth : (sorted.take q.limit.toNat ++ pages.flatten).Perm
        (sorted.take q.limit.toNat ++ sorted.drop q.limit.toNat) := by
      rw [take_append_drop]
      exact hpages_all.trans hsorted.perm.symm
    have hdrop := (perm_append_left_iff _).mp hboth
    exact ⟨last, cutsAt_of_perm hsorted.perm hlast ((hall _ hpages).symm.trans hdrop)⟩
  · rintro (hone | hfirst)
    · exact complete_of_onePage hoffset hpk hq hone
    -- a first page and the rows with greater keys are all rows
    have hcut : ∀ {sorted last}, t.Sorted q sorted → (sorted.take q.limit.toNat).getLast? = some last →
        (sorted.take q.limit.toNat ++ t.after pk (t.rows.filter q.holds) (t.key pk last)).Perm
          (t.rows.filter q.holds) := by
      intro sorted last hsorted hlast
      obtain ⟨last', hcut⟩ := hfirst sorted hsorted
      obtain rfl := Option.some.inj (hlast.symm.trans hcut.1)
      have hrest : (t.after pk (t.rows.filter q.holds) (t.key pk last)).Perm (sorted.drop q.limit.toNat) := by
        rw [← hcut.filter_eq]
        exact (hsorted.perm.filter _).symm
      have hboth := hrest.append_left (sorted.take q.limit.toNat)
      rw [take_append_drop] at hboth
      exact hboth.trans hsorted.perm
    refine ⟨⟨?_, fun page out h hne => ?_⟩, fun pages hpages => ?_⟩
    · obtain ⟨sorted, hsorted⟩ := exists_sorted t q
      obtain ⟨page, out, hout, -⟩ := hexists hsorted
      exact ⟨page, out, hout⟩
    · obtain ⟨sorted, -, ⟨-, hend, -⟩ | ⟨-, -, -, -, last, -, hends, -⟩⟩ := hanswer h
      · exact absurd hend hne
      · exact hends
    cases hpages with
    | last h hend =>
      obtain ⟨sorted, hsorted, ⟨rfl, -, -⟩ | ⟨-, -, -, hne, -⟩⟩ := hanswer h
      · rw [flatten_singleton]
        exact hsorted.perm
      · exact absurd hend hne
    | more h hne hrest =>
      obtain ⟨sorted, hsorted, ⟨-, hend, -⟩ | ⟨-, -, rfl, -, last, hlast, -, hall⟩⟩ := hanswer h
      · exact absurd hend hne
      · exact ((hall _ hrest).append_left _).trans (hcut hsorted hlast)

theorem firstPage_of_no_order (hq : t.query pk { input with cursor := "" } = .ok q)
    (hkey : KeyOk t pk (t.rows.filter q.holds)) (horder : input.order = "") (hone : ¬ OnePage t q) :
    FirstPageInKeyOrder t pk q := by
  intro sorted hsorted
  obtain ⟨columns, holds, -, -, hqeq⟩ := query_inv hq
  have hasc : q.order = pk ∧ q.descending = false := by
    rw [hqeq, if_pos horder, hkey.order]
    exact ⟨rfl, rfl⟩
  have hord : sorted.Pairwise fun a b => t.key pk a ≤ t.key pk b := by
    rw [SearchTable.Sorted, hasc.1, hasc.2] at hsorted
    exact hsorted.2
  have hdistinct : (sorted.map (t.key pk)).Nodup := (hsorted.perm.map _).nodup_iff.mpr hkey.distinct
  have hlen := hsorted.perm.length_eq
  unfold OnePage at hone
  exact cutsAt_of_sorted hord hdistinct (by omega) (by omega)

/-- **When paging is complete.** If all rows fit on one page, always. With keys that tell the rows apart and read back,
the chain of a request ends and returns every matching row once exactly if that is so or the first page begins the list
in the order of the keys; and so it does if no order is requested. -/
theorem search_read_complete_iff (t : SearchTable κ) (input : SearchReadInput) (hoffset : input.offset = 0)
    (hpk : t.md.primaryKeyColumn = some pk) {q : Query} (hq : t.query pk { input with cursor := "" } = .ok q) :
    (OnePage t q → Complete t input (t.rows.filter q.holds)) ∧
      (KeyOk t pk (t.rows.filter q.holds) →
        (Complete t input (t.rows.filter q.holds) ↔ OnePage t q ∨ FirstPageInKeyOrder t pk q) ∧
          (input.order = "" → Complete t input (t.rows.filter q.holds))) := by
  refine ⟨complete_of_onePage hoffset hpk hq, fun hkey => ?_⟩
  have hiff := complete_iff t input hoffset hpk hq hkey
  refine ⟨hiff, fun horder => hiff.mpr ?_⟩
  by_cases hone : OnePage t q
  · exact .inl hone
  · exact .inr (firstPage_of_no_order hq hkey horder hone)

end

end

/-! ## Two contacts -/

def contact (id : Int) (name : String) : Row
  | "id" => .int id
  | "name" => .text name
  | _ => .null

/-- Contacts 1, named a, and 2, named b. -/
def twoContacts : SearchTable ℕ where
  md := { name := "contact", fields := [{ name := "id", kind := .bigInt, isPrimaryKey := true }, { name := "name" }] }
  rows := [contact 1 "a", contact 2 "b"]
  columns := ["id", "name"]
  condition := fun _ => some fun _ => true
  rank := fun _ v =>
    match v with
    | .int i => i.toNat
    | .text s => (s.toList.headD ' ').toNat
    | _ => 1000
  mask := fun _ v => some v
  print := fun v =>
    match v with
    | .int i => if i = 1 then "1" else "2"
    | _ => "<nil>"
  parse := fun s => if s = "1" then some (.int 1) else if s = "2" then some (.int 2) else none

theorem keyOk_twoContacts : KeyOk twoContacts "id" (twoContacts.rows.filter fun r => true && twoContacts.active r) where
  order := by decide
  column := by decide
  distinct := by decide
  printed := by decide
  parsed := by decide

/-- Without an order both contacts come, one on each page. -/
theorem search_read_complete_twoContacts : ∃ q,
    twoContacts.query "id" { dispatchORMList "" [] "" "1" "" with cursor := "" } = .ok q ∧
      twoContacts.rows.filter q.holds = twoContacts.rows ∧
      Complete twoContacts (dispatchORMList "" [] "" "1" "") (twoContacts.rows.filter q.holds) := by
  refine ⟨_, rfl, rfl, ?_⟩
  exact ((search_read_complete_iff twoContacts (dispatchORMList "" [] "" "1" "") rfl rfl rfl).2 keyOk_twoContacts).2 rfl

def byNameDescending : Query where
  holds := fun r => true && twoContacts.active r
  order := "name"
  descending := true
  limit := 1
  offset := 0

/-- Sorted by descending name, the page after contact 2 is empty: contact 1 never comes. -/
theorem sorted_list_loses_row : ¬ ∀ (t : SearchTable ℕ) (input : SearchReadInput) (pk : String) (q : Query),
    input.offset = 0 → t.md.primaryKeyColumn = some pk → t.query pk { input with cursor := "" } = .ok q →
      Complete t input (t.rows.filter q.holds) := by
  intro h
  have hq : twoContacts.query "id" { dispatchORMList "" [] "-name" "1" "" with cursor := "" } =
    .ok byNameDescending := rfl
  have hcomplete := h twoContacts _ "id" byNameDescending rfl rfl hq
  rcases (complete_iff twoContacts _ rfl rfl hq keyOk_twoContacts).mp hcomplete with (hone | hone) | hcuts
  iterate 2 exact absurd hone (by decide)
  have hsorted : twoContacts.Sorted byNameDescending [contact 2 "b", contact 1 "a"] :=
    ⟨List.Perm.swap _ _ _, by decide⟩
  obtain ⟨last, hcut⟩ := hcuts _ hsorted
  obtain rfl := Option.some.inj hcut.1
  exact absurd (hcut.2.2 (contact 1 "a") mem_cons_self) (by decide)

end GoErp.Orm
