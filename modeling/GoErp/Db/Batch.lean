import Mathlib.Algebra.Ring.Nat
import Mathlib.Data.List.Forall2
import GoErp.Db.Exec

/-!
# `Db.Batch` — the pipelined batch against the sequential one

`host.db.exec_batch` runs one prepared statement once per parameter set. The sequential path (`DBExecBatch`'s loop
over `execRow`) reads the rows a statement will change just before it runs; the pipelined path
(`wasm/host_db_exec_batch_fast.go`) reads the rows of all parameter sets first. `pipelineEligible` is meant to let
only batches through for which this makes no difference.

The database is a parameter: what a statement does is a function of the state and the parameters. The two paths leave
the decoding of rows to different drivers, `scan` and `collect`; `normalizePgxRow` makes up for the difference on the
column types that `PgType.alike` lists.

Where a statement treats each row by itself (`RowWise`), the paths agree on every state exactly if no row that one
parameter set selects is selected by a later one, neither as it was nor as it is left (`Apart`). Where `WHERE` compares
a key that `SET` keeps with one parameter, `pipelineHasDuplicateAuditTargets` establishes that (`ByKey.apart`).
-/

namespace GoErp.Db

open PgQuery Lib List

/-! ## Values and rows -/

/-- A Go value, as a parameter or in a row. -/
inductive GoValue where
  | nil
  | bool (b : Bool)
  /-- an integer of a Go type of so many bits -/
  | int (bits : Nat) (i : Int)
  | str (s : String)
  /-- a `[16]byte`, by its canonical text -/
  | uuid (text : String)
  /-- a `driver.Valuer`, by what `Value` returns -/
  | valuer (text : Option String)
  /-- a decoded document or a slice -/
  | decoded (text : String)
  deriving DecidableEq

abbrev Row := List (String × GoValue)

def Row.get (row : Row) (col : String) : GoValue := (row.lookup col).getD .nil

/-- `%#v`; characters that `strconv.Quote` escapes stand for their escapes. -/
def goSyntax : GoValue → String
  | .nil => "<nil>"
  | .bool b => if b then "true" else "false"
  | .int _ i => toString i
  | .str s => "\"" ++ s ++ "\""
  | .uuid text => "[16]uint8\x7b" ++ text ++ "\x7d"
  | .valuer text => "valuer\x7b" ++ text.getD "" ++ "\x7d"
  | .decoded text => text

def normalizePgxValue : GoValue → GoValue
  | .uuid text => .str text
  | .valuer (some text) => .str text
  | v => v

def normalizePgxRow (row : Row) : Row := row.map fun x => (x.1, normalizePgxValue x.2)

/-! ## The two drivers -/

/-- A value as Postgres sends it. -/
inductive Cell where
  | null
  | bool (b : Bool)
  /-- `smallint`, `integer` and `bigint` -/
  | int (bits : Nat) (i : Int)
  | text (s : String)
  | uuid (text : String)
  /-- `numeric` and the other types that `pgtype` wraps: `time`, `interval` -/
  | wrapped (text : String)
  /-- `json`, `jsonb` and arrays -/
  | composite (text : String)

inductive PgType where
  | bool
  | int (bits : Nat)
  | text
  | uuid
  | wrapped
  | composite

def Cell.HasType : Cell → PgType → Prop
  | .null, _ => True
  | .bool _, t => t = .bool
  | .int bits _, t => t = .int bits
  | .text _, t => t = .text
  | .uuid _, t => t = .uuid
  | .wrapped _, t => t = .wrapped
  | .composite _, t => t = .composite

abbrev DbRow := List (String × Cell)

/-- `database/sql`: every integer is an `int64`, what is no scalar of Go a string. -/
def scanCell : Cell → GoValue
  | .null => .nil
  | .bool b => .bool b
  | .int _ i => .int 64 i
  | .text s | .uuid s | .wrapped s | .composite s => .str s

/-- `pgx.RowToMap`: integers keep their width, documents and arrays are decoded. -/
def collectCell : Cell → GoValue
  | .null => .nil
  | .bool b => .bool b
  | .int bits i => .int bits i
  | .text s => .str s
  | .uuid text => .uuid text
  | .wrapped text => .valuer (some text)
  | .composite text => .decoded text

def scan (row : DbRow) : Row := row.map fun x => (x.1, scanCell x.2)

def collect (row : DbRow) : Row := row.map fun x => (x.1, collectCell x.2)

/-- The column types that come out alike of both drivers, once normalized. -/
def PgType.alike : PgType → Bool
  | .int bits => bits = 64
  | .composite => false
  | _ => true

theorem normalizePgxValue_collectCell {c : Cell} {t : PgType} (hc : c.HasType t) (ht : t.alike = true) :
    normalizePgxValue (collectCell c) = scanCell c := by
  cases c with
  | int bits i =>
    cases hc
    have hbits : bits = 64 := by simpa [PgType.alike] using ht
    rw [hbits]
    rfl
  | composite text =>
    cases hc
    cases ht
  | _ => rfl

/-! ## Audit entries -/

structure AuditEntry where
  recordID : GoValue
  oldData : Option Row
  newData : Option Row
  deriving DecidableEq

/-- The last row with a primary key: the map `newByPK`. -/
def rowByPK (pkCol : String) (rows : List Row) (pk : GoValue) : Option Row :=
  rows.reverse.find? fun row => row.get pkCol = pk

/-- The loop over the old rows: the pairs, the rows left unpaired, and the keys consumed. -/
def pairOld (pkCol : String) (newRows : List Row) : List GoValue → List Row →
    List (Row × Row) × List Row × List GoValue
  | consumed, [] => ([], [], consumed)
  | consumed, old :: rest =>
    match rowByPK pkCol newRows (old.get pkCol) with
    | some new =>
      if old.get pkCol ∈ consumed then
        let (pairs, unpaired, consumed) := pairOld pkCol newRows consumed rest
        (pairs, old :: unpaired, consumed)
      else
        let (pairs, unpaired, consumed) := pairOld pkCol newRows (old.get pkCol :: consumed) rest
        ((old, new) :: pairs, unpaired, consumed)
    | none =>
      let (pairs, unpaired, consumed) := pairOld pkCol newRows consumed rest
      (pairs, old :: unpaired, consumed)

/-- What is left over is paired by position. -/
def zipLongest : List Row → List Row → List (Option Row × Option Row)
  | [], ns => ns.map fun n => (none, some n)
  | o :: os, [] => (some o, none) :: zipLongest os []
  | o :: os, n :: ns => (some o, some n) :: zipLongest os ns

/-- Rows are paired by primary key; the rest are paired in order. -/
def pairAuditEntries (pkCol : String) (oldRows newRows : List Row) : List AuditEntry :=
  let (pairs, unpairedOld, consumed) := pairOld pkCol newRows [] oldRows
  let unpairedNew := newRows.filter fun row => row.get pkCol ∉ consumed
  let all := pairs.map (fun x => (some x.1, some x.2)) ++ zipLongest unpairedOld unpairedNew
  all.map fun x =>
    { recordID := match x.2 with
        | some new => new.get pkCol
        | none => (x.1.map fun old => old.get pkCol).getD .nil
      oldData := x.1
      newData := x.2 }

theorem zipLongest_fst (olds news : List Row) : (zipLongest olds news).filterMap Prod.fst = olds := by
  induction olds generalizing news with
  | nil => simp [zipLongest]
  | cons o os ih => cases news <;> rw [zipLongest, filterMap_cons, ih]

/-- Every old row is paired or left over, once. -/
theorem pairOld_perm (pkCol : String) (newRows : List Row) (consumed : List GoValue) (oldRows : List Row) :
    ((pairOld pkCol newRows consumed oldRows).1.map Prod.fst ++
      (pairOld pkCol newRows consumed oldRows).2.1).Perm oldRows := by
  induction oldRows generalizing consumed with
  | nil => exact .nil
  | cons old rest ih =>
    rw [pairOld]
    split
    · split
      · exact perm_middle.trans ((ih consumed).cons old)
      · exact (ih _).cons old
    · exact perm_middle.trans ((ih consumed).cons old)

/-- **The entries hold every old row once.** -/
theorem pairAuditEntries_old (pkCol : String) (oldRows newRows : List Row) :
    ((pairAuditEntries pkCol oldRows newRows).filterMap AuditEntry.oldData).Perm oldRows := by
  have hold : (pairAuditEntries pkCol oldRows newRows).filterMap AuditEntry.oldData =
      (pairOld pkCol newRows [] oldRows).1.map Prod.fst ++ (pairOld pkCol newRows [] oldRows).2.1 := by
    unfold pairAuditEntries
    simp only [filterMap_map, filterMap_append, Function.comp_def]
    rw [zipLongest_fst]
    simp [map_eq_flatMap, filterMap_eq_flatMap_toList]
  rw [hold]
  exact pairOld_perm pkCol newRows [] oldRows

/-! ## The database -/

/-- Postgres; `S` is the state of the database. -/
structure Postgres (S : Type) where
  /-- a statement with its parameters: the state after it, its command tag and the rows it returns -/
  run : Node → List GoValue → S → Except String (S × Nat × List DbRow)
  /-- the rows of a statement's relation that its `WHERE` (and `FROM`) select, which reading does not change -/
  matching : ExecStmt → List GoValue → S → Except String (List DbRow)
  /-- the columns of a table -/
  columns : String → S → Except String (List String)
  /-- the types of the columns that a statement returns -/
  returns : Node → List (String × PgType)
  run_typed : ∀ {n : Node} {params : List GoValue} {s s' : S} {tag : Nat} {rows : List DbRow},
    run n params s = .ok (s', tag, rows) → ∀ row ∈ rows, ∀ x ∈ row, ∃ c ∈ returns n, x.2.HasType c.2

inductive BatchError where
  | execError (message : String)
  | etagMismatch
  deriving DecidableEq

/-- What running the statement for one parameter set gives. -/
structure RowResult where
  rowsAffected : Nat
  /-- the rows for the module; empty if it asked for none -/
  returning : List (List GoValue)
  entries : List AuditEntry
  /-- the pairs of rows the change entries of a tracked model are made from -/
  changes : List (Row × Row)

def pgError {α : Type} (x : Except String α) : Except BatchError α :=
  match x with
  | .ok a => .ok a
  | .error message => .error (.execError message)

def projectReturning (rows : List Row) (cols : List String) : List (List GoValue) :=
  rows.map fun row => cols.map row.get

def PreparedExec.project (p : PreparedExec) (rows : List Row) : List (List GoValue) :=
  match p.requestedCols with
  | none => []
  | some cols => projectReturning rows cols

def PreparedExec.pkCol (p : PreparedExec) : String := (p.audit.map Prod.fst).getD ""

/-- `writeAuditForExec`: the entries it inserts. -/
def auditForExec (p : PreparedExec) (oldRows newRows : List Row) : List AuditEntry :=
  match p.stmt.operation with
  | .insert => newRows.map fun row => ⟨row.get p.pkCol, none, some row⟩
  | .delete => pairAuditEntries p.pkCol oldRows []
  | .update => pairAuditEntries p.pkCol oldRows newRows

/-- The pairs with both rows, in the order of their entries. -/
def changedPairs (pkCol : String) (oldRows newRows : List Row) : List (Row × Row) :=
  (pairAuditEntries pkCol oldRows newRows).filterMap fun e =>
    match e.oldData, e.newData with
    | some old, some new => some (old, new)
    | _, _ => none

section

variable {S : Type} (db : Postgres S) (p : PreparedExec)

def validateReturning (s : S) : Except BatchError Unit :=
  match p.requestedCols with
  | none => .ok ()
  | some cols => do
    let available ← pgError (db.columns p.table s)
    match cols.find? fun c => c ∉ available with
    | some c => .error (.execError ("opts.returning: column \"" ++ c ++ "\" does not exist"))
    | none => .ok ()

/-- The rows `execRow` captures before the statement; none if nothing is written about them. -/
def rowsBefore (params : List GoValue) (s : S) : Except BatchError (List Row) :=
  if (p.audited && p.stmt.operation ≠ .insert) || p.tracked.isSome then do
    let rows ← pgError (db.matching p.stmt params s)
    .ok (rows.map scan)
  else .ok []

/-- `execRow`. -/
def execRow (params : List GoValue) (s : S) : Except BatchError (S × RowResult) := do
  validateReturning db p s
  let oldRows ← rowsBefore db p params s
  let (s', tag, returned) ← pgError (db.run p.finalStmt params s)
  let newRows := if p.needReturning then returned.map scan else []
  let rowsAffected := if p.needReturning then newRows.length else tag
  if p.hasEtagCol && p.hadEtagCheck && rowsAffected = 0 then
    .error .etagMismatch
  else
    .ok (s', {
      rowsAffected
      returning := p.project newRows
      entries := if p.audited then auditForExec p oldRows newRows else []
      changes := match p.tracked with
        | some (_, _, pk) => changedPairs pk oldRows newRows
        | none => [] })

/-- The loop of `DBExecBatch`, which stops at the first error. -/
def execSequential : List (List GoValue) → S → Except BatchError (S × List RowResult)
  | [], s => .ok (s, [])
  | params :: rest, s => do
    let (s', r) ← execRow db p params s
    let (s'', rs) ← execSequential rest s'
    .ok (s'', r :: rs)

/-- `captureRowsBeforeExecBatch`: the rows of every parameter set in one state. It reads the relation alone,
    without `FROM` items. -/
def captureRowsBeforeExecBatch (s : S) : List (List GoValue) → Except BatchError (List (List Row))
  | [] => .ok []
  | params :: rest => do
    let rows ← pgError (db.matching { p.stmt with fromClause := [] } params s)
    let rowss ← captureRowsBeforeExecBatch s rest
    .ok (rows.map scan :: rowss)

/-- `sendPipelineBatch`: the command tag, or the number of rows, and the rows of each statement. -/
def sendPipelineBatch : List (List GoValue) → S → Except BatchError (S × List (Nat × List Row))
  | [], s => .ok (s, [])
  | params :: rest, s => do
    let (s', tag, returned) ← pgError (db.run p.finalStmt params s)
    let newRows := if p.needReturning then returned.map fun d => normalizePgxRow (collect d) else []
    let (s'', rs) ← sendPipelineBatch rest s'
    .ok (s'', (if p.needReturning then newRows.length else tag, newRows) :: rs)

/-- The results of the statements, with the rows read before all of them. -/
def pipelineResults (oldRowsPerIndex : List (List Row)) (results : List (Nat × List Row)) : List RowResult :=
  List.zipWith (fun oldRows res => {
    rowsAffected := res.1
    returning := p.project res.2
    entries :=
      if p.audited then
        pairAuditEntries p.pkCol oldRows (if p.stmt.operation = .delete then [] else res.2)
      else []
    changes := [] }) oldRowsPerIndex results

/-- The rows captured before the whole batch. -/
def rowsBeforeBatch (paramSets : List (List GoValue)) (s : S) : Except BatchError (List (List Row)) :=
  if p.audited then captureRowsBeforeExecBatch db p s paramSets else .ok (paramSets.map fun _ => [])

/-- `execBatchPipeline`. -/
def execBatchPipeline (paramSets : List (List GoValue)) (s : S) : Except BatchError (S × List RowResult) := do
  validateReturning db p s
  let oldRowsPerIndex ← rowsBeforeBatch db p paramSets s
  let (s', results) ← sendPipelineBatch db p paramSets s
  .ok (s', pipelineResults p oldRowsPerIndex results)

end

/-! ## Eligibility -/

mutual

/-- `whereClauseParamNumbers`. -/
def paramNumbers : Node → List Int
  | .mk label children =>
    match label with
    | .paramRef number => [number]
    | _ => paramNumbersList children

def paramNumbersList : List (Field × Node) → List Int
  | [] => []
  | (_, n) :: rest => paramNumbers n ++ paramNumbersList rest

end

/-- The key of a parameter set; `none` if it has no value for a number (the source panics on `$0`). -/
def targetKey (nums : List Int) (params : List GoValue) : Option String :=
  match nums with
  | [] => some ""
  | n :: rest =>
    if n < 1 ∨ (params.length : Int) < n then none
    else (targetKey rest params).map fun key => goSyntax (params.getD (n - 1).toNat .nil) ++ "|" ++ key

/-- The loop over the parameter sets, with the keys seen so far. -/
def repeatsKey (nums : List Int) : List String → List (List GoValue) → Bool
  | _, [] => false
  | seen, params :: rest =>
    match targetKey nums params with
    | none => true
    | some key => seen.contains key || repeatsKey nums (key :: seen) rest

def pipelineHasDuplicateAuditTargets (p : PreparedExec) (paramSets : List (List GoValue)) : Bool :=
  let nums := match p.stmt.whereClause with
    | none => []
    | some w => paramNumbers w
  nums.isEmpty || repeatsKey nums [] paramSets

/-- Whether the parameter sets may go out as one pipeline; audit pairing needs distinct targets. -/
def pipelineEligible (p : PreparedExec) (paramSets : List (List GoValue)) : Bool :=
  if (p.stmt.operation ≠ .update ∧ p.stmt.operation ≠ .delete) ∨ paramSets.length ≤ 1 then false
  else if p.hadEtagCheck then false
  else if p.tracked.isSome then false
  else if p.audited ∧ p.stmt.fromClause ≠ [] then false
  else if p.audited ∧ pipelineHasDuplicateAuditTargets p paramSets then false
  else true

theorem pipelineEligible_true {p : PreparedExec} {paramSets : List (List GoValue)}
    (h : pipelineEligible p paramSets = true) :
    (p.stmt.operation = .update ∨ p.stmt.operation = .delete) ∧ p.hadEtagCheck = false ∧ p.tracked = none ∧
      (p.audited = true → p.stmt.fromClause = [] ∧ pipelineHasDuplicateAuditTargets p paramSets = false) := by
  unfold pipelineEligible at h
  split at h
  · cases h
  rename_i hop
  split at h
  · cases h
  rename_i hetag
  split at h
  · cases h
  rename_i htracked
  split at h
  · cases h
  rename_i hfrom
  split at h
  · cases h
  rename_i hdup
  refine ⟨?_, by simpa using hetag, by simpa using htracked, fun haud => ⟨?_, ?_⟩⟩
  · by_contra hne
    exact hop (.inl (not_or.mp hne))
  · by_contra hne
    exact hfrom ⟨haud, hne⟩
  · simpa [haud] using hdup

/-! ## Agreement -/

section

variable {S : Type} (db : Postgres S) (p : PreparedExec)

/-- What a batch leaves behind: the state, the total, the rows for the module, and the audit entries of each
    statement, in any order. -/
def SameOutcome (a b : S × List RowResult) : Prop :=
  a.1 = b.1 ∧ (a.2.map RowResult.rowsAffected).sum = (b.2.map RowResult.rowsAffected).sum ∧
    a.2.flatMap RowResult.returning = b.2.flatMap RowResult.returning ∧
    List.Forall₂ (fun x y => x.entries.Perm y.entries) a.2 b.2

/-- The rows that statement `i` selects before the batch are those it selects just before it runs. `s₀` is the
    state before the batch, the last argument the state before the statements that are left. -/
def RowsStay (same : List DbRow → List DbRow → Prop) (s₀ : S) : List (List GoValue) → S → Prop
  | [], _ => True
  | params :: rest, s =>
    (∀ before now, db.matching p.stmt params s₀ = .ok before → db.matching p.stmt params s = .ok now →
      same before now) ∧
    ∀ s' out, db.run p.finalStmt params s = .ok (s', out) → RowsStay same s₀ rest s'

/-- No column that a statement returns comes out differently of the two drivers. -/
def DecodesAlike : Prop := ∀ c ∈ db.returns p.finalStmt, c.2.alike = true

variable {db p}

theorem DecodesAlike.normalize (hdecode : DecodesAlike db p) {row : DbRow}
    (htyped : ∀ x ∈ row, ∃ c ∈ db.returns p.finalStmt, x.2.HasType c.2) : normalizePgxRow (collect row) = scan row := by
  rw [normalizePgxRow, collect, scan, map_map]
  refine map_congr_left fun x hx => ?_
  obtain ⟨c, hc, htype⟩ := htyped x hx
  exact congrArg (Prod.mk x.1) (normalizePgxValue_collectCell htype (hdecode c hc))

theorem pgError_ok {α : Type} {x : Except String α} {a : α} : pgError x = .ok a ↔ x = .ok a := by
  cases x <;> simp [pgError]

/-- The result of one statement of an eligible batch, from the rows read before it and those it returns. -/
def statementResult (p : PreparedExec) (oldRows : List Row) (tag : Nat) (returned : List Row) : RowResult where
  rowsAffected := if p.needReturning then returned.length else tag
  returning := p.project (if p.needReturning then returned else [])
  entries :=
    if p.audited then
      pairAuditEntries p.pkCol oldRows
        (if p.stmt.operation = .delete then [] else if p.needReturning then returned else [])
    else []
  changes := []

/-- What eligibility leaves of `execRow`. -/
theorem execRow_ok {paramSets : List (List GoValue)} (helig : pipelineEligible p paramSets = true)
    {params : List GoValue} {s s' : S} {r : RowResult} (h : execRow db p params s = .ok (s', r)) :
    ∃ old tag returned, (p.audited = true → db.matching p.stmt params s = .ok old) ∧
      db.run p.finalStmt params s = .ok (s', tag, returned) ∧
      r = statementResult p (old.map scan) tag (returned.map scan) := by
  obtain ⟨hop, hetag, htracked, -⟩ := pipelineEligible_true helig
  obtain ⟨-, -, h⟩ := bind_eq_ok.mp h
  obtain ⟨oldRows, hold, h⟩ := bind_eq_ok.mp h
  obtain ⟨⟨s1, tag, returned⟩, hrun, h⟩ := bind_eq_ok.mp h
  have hinsert : p.stmt.operation ≠ .insert := by
    rcases hop with hop | hop <;> simp [hop]
  -- the rows read first, for an audited statement
  obtain ⟨old, hmatch, rfl⟩ : ∃ old, (p.audited = true → db.matching p.stmt params s = .ok old) ∧
      oldRows = old.map scan := by
    unfold rowsBefore at hold
    by_cases haud : p.audited = true
    · rw [if_pos (by simp [haud, hinsert])] at hold
      obtain ⟨rows, hrows, hold⟩ := bind_eq_ok.mp hold
      cases hold
      exact ⟨rows, fun _ => pgError_ok.mp hrows, rfl⟩
    rw [if_neg (by simp [haud, htracked])] at hold
    cases hold
    exact ⟨[], fun h => absurd h haud, rfl⟩
  refine ⟨old, tag, returned, hmatch, ?_⟩
  simp only [hetag, htracked, Bool.and_false, Bool.false_and, Bool.false_eq_true, if_false] at h
  cases Except.ok.inj h
  refine ⟨pgError_ok.mp hrun, ?_⟩
  rcases hop with hop | hop <;> cases hret : p.needReturning <;> simp [statementResult, auditForExec, hop, hret]

/-- The rows read before the batch are those of each parameter set in the state before it. -/
def ReadBefore (db : Postgres S) (p : PreparedExec) (s₀ : S) (params : List GoValue) (oldRows : List Row) : Prop :=
  p.audited = true → ∃ rows, db.matching p.stmt params s₀ = .ok rows ∧ oldRows = rows.map scan

variable {olds : List (List Row)} {s₀ : S} {sets : List (List GoValue)}

theorem captureRows_ok (hfrom : p.stmt.fromClause = []) (h : captureRowsBeforeExecBatch db p s₀ sets = .ok olds) :
    List.Forall₂ (ReadBefore db p s₀) sets olds := by
  have hstmt : { p.stmt with fromClause := [] } = p.stmt := by rw [← hfrom]
  induction sets generalizing olds with
  | nil =>
    cases h
    exact .nil
  | cons params rest ih =>
    obtain ⟨rows, hrows, h⟩ := bind_eq_ok.mp h
    obtain ⟨rowss, hrest, h⟩ := bind_eq_ok.mp h
    cases h
    rw [pgError_ok, hstmt] at hrows
    exact .cons (fun _ => ⟨rows, hrows, rfl⟩) (ih hrest)

theorem rowsBeforeBatch_ok (hfrom : p.audited = true → p.stmt.fromClause = [])
    (h : rowsBeforeBatch db p sets s₀ = .ok olds) : List.Forall₂ (ReadBefore db p s₀) sets olds := by
  unfold rowsBeforeBatch at h
  by_cases haud : p.audited = true
  · rw [if_pos haud] at h
    exact captureRows_ok (hfrom haud) h
  rw [if_neg haud] at h
  cases h
  rw [forall₂_map_right_iff, forall₂_same]
  exact fun params _ h => absurd h haud

/-- The entries of an audited statement tell which rows were read before it. -/
theorem rows_of_entries {before now returned : List Row} {tag : Nat} (haud : p.audited = true)
    (h : (statementResult p before tag returned).entries.Perm (statementResult p now tag returned).entries) :
    before.Perm now := by
  unfold statementResult at h
  simp only [haud, if_true] at h
  have hold := h.filterMap AuditEntry.oldData
  exact (pairAuditEntries_old _ _ _).symm.trans (hold.trans (pairAuditEntries_old _ _ _))

/-- What the two paths have in common, statement by statement. -/
structure Simulates (db : Postgres S) (p : PreparedExec) (s₀ s : S) (sets : List (List GoValue))
    (pipe seq : S × List RowResult) : Prop where
  state : pipe.1 = seq.1
  total : (pipe.2.map RowResult.rowsAffected).sum = (seq.2.map RowResult.rowsAffected).sum
  returning : pipe.2.flatMap RowResult.returning = seq.2.flatMap RowResult.returning
  entries : (p.audited = true → RowsStay db p Eq s₀ sets s) →
    List.Forall₂ (fun x y => x.entries.Perm y.entries) pipe.2 seq.2
  rows : p.audited = true → List.Forall₂ (fun x y => x.entries.Perm y.entries) pipe.2 seq.2 →
    RowsStay db p (fun a b => (a.map scan).Perm (b.map scan)) s₀ sets s

/-- **The pipeline simulates the loop**: both run the same statements from the same state, and each pair of
    results differs in the rows read before it only. -/
theorem pipeline_simulates (hdecode : DecodesAlike db p) {paramSets : List (List GoValue)}
    (helig : pipelineEligible p paramSets = true) {s sp : S} {results : List (Nat × List Row)}
    {seq : S × List RowResult} (hread : List.Forall₂ (ReadBefore db p s₀) sets olds)
    (hpipe : sendPipelineBatch db p sets s = .ok (sp, results)) (hseq : execSequential db p sets s = .ok seq) :
    Simulates db p s₀ s sets (sp, pipelineResults p olds results) seq := by
  induction hread generalizing s sp results seq with
  | nil =>
    cases hpipe
    cases hseq
    exact ⟨rfl, rfl, rfl, fun _ => .nil, fun _ _ => trivial⟩
  | @cons params old sets olds hold _ ih =>
    obtain ⟨⟨s1, tag, returned⟩, hrun, hpipe⟩ := bind_eq_ok.mp hpipe
    obtain ⟨⟨s2, rest⟩, hrest, hpipe⟩ := bind_eq_ok.mp hpipe
    cases Except.ok.inj hpipe
    obtain ⟨⟨s1', r⟩, hrow, hseq⟩ := bind_eq_ok.mp hseq
    obtain ⟨⟨s2', rs⟩, hrows, hseq⟩ := bind_eq_ok.mp hseq
    cases hseq
    rw [pgError_ok] at hrun
    obtain ⟨now, tag', returned', hnow, hrun', rfl⟩ := execRow_ok helig hrow
    rw [hrun] at hrun'
    cases hrun'
    have hsim := ih hrest hrows
    -- the pipeline's result is `statementResult` too, as the rows are decoded alike
    have hcollect : (returned.map fun d => normalizePgxRow (collect d)) = returned.map scan :=
      map_congr_left fun d hd => hdecode.normalize (db.run_typed hrun d hd)
    have hhead : pipelineResults p (old :: olds) ((if p.needReturning then
          (if p.needReturning then returned.map fun d => normalizePgxRow (collect d) else []).length else tag,
        if p.needReturning then returned.map fun d => normalizePgxRow (collect d) else []) :: rest) =
        statementResult p old tag (returned.map scan) :: pipelineResults p olds rest := by
      rw [hcollect]
      cases hret : p.needReturning <;> simp [pipelineResults, statementResult, hret]
    rw [hhead]
    refine ⟨hsim.state, ?_, ?_, ?_, ?_⟩
    · have htotal := hsim.total
      rw [map_cons, map_cons, sum_cons, sum_cons, htotal]
      rfl
    · have hreturning := hsim.returning
      rw [flatMap_cons, flatMap_cons, hreturning]
      rfl
    · intro hstay
      refine .cons ?_ (hsim.entries fun haud => (hstay haud).2 _ _ hrun)
      by_cases haud : p.audited = true
      · obtain ⟨rows, hrows₀, rfl⟩ := hold haud
        rw [(hstay haud).1 rows now hrows₀ (hnow haud)]
      · simp [statementResult, haud]
    · intro haud hall
      obtain ⟨rows, hrows₀, rfl⟩ := hold haud
      cases hall with
      | cons hfirst hothers =>
        refine ⟨fun before now' hbefore hnow' => ?_, fun s' out hout => ?_⟩
        · rw [hrows₀] at hbefore
          rw [hnow haud] at hnow'
          cases hbefore
          cases hnow'
          exact rows_of_entries haud hfirst
        rw [hrun] at hout
        cases hout
        exact hsim.rows haud hothers

variable (db p) in
/-- On every state on which no statement fails, the two paths leave the same behind. -/
def Agree (paramSets : List (List GoValue)) : Prop :=
  ∀ s pipe seq, execBatchPipeline db p paramSets s = .ok pipe → execSequential db p paramSets s = .ok seq →
    SameOutcome pipe seq

/-- A pipelined batch that succeeds has read the rows of every parameter set, and simulates the loop. -/
theorem pipeline_ok {paramSets : List (List GoValue)} (hdecode : DecodesAlike db p)
    (helig : pipelineEligible p paramSets = true) {s : S} {pipe seq : S × List RowResult}
    (hpipe : execBatchPipeline db p paramSets s = .ok pipe) (hseq : execSequential db p paramSets s = .ok seq) :
    (p.audited = true → ∀ b ∈ paramSets, ∃ found, db.matching p.stmt b s = .ok found) ∧
      Simulates db p s s paramSets pipe seq := by
  obtain ⟨-, -, hpipe⟩ := bind_eq_ok.mp hpipe
  obtain ⟨olds, holds, hpipe⟩ := bind_eq_ok.mp hpipe
  obtain ⟨⟨s', results⟩, hsend, hpipe⟩ := bind_eq_ok.mp hpipe
  cases hpipe
  obtain ⟨-, -, -, hfrom⟩ := pipelineEligible_true helig
  have hread := rowsBeforeBatch_ok (fun haud => (hfrom haud).1) holds
  refine ⟨fun haud => ?_, pipeline_simulates hdecode helig hread hsend hseq⟩
  have hfound := hread.imp fun b old h => And.intro ((h haud).imp fun rows hrows => hrows.1) h
  exact (forall₂_and_left _ _).mp hfound |>.1

end

/-! ## Statements that treat each row by itself -/

/-- `WHERE` and `SET` read the row and the parameters only. `D` is a row of the table. -/
structure RowWise {S : Type} (D : Type) (db : Postgres S) (p : PreparedExec) where
  /-- the rows of the table in a state -/
  rows : S → List D
  cells : D → DbRow
  /-- `WHERE` -/
  hit : List GoValue → D → Bool
  /-- what becomes of a row that `WHERE` selects -/
  after : List GoValue → D → Option D
  reads : ∀ {params : List GoValue} {s : S} {found : List DbRow}, db.matching p.stmt params s = .ok found →
    found = ((rows s).filter (hit params)).map cells
  writes : ∀ {params : List GoValue} {s s' : S} {out : Nat × List DbRow},
    db.run p.finalStmt params s = .ok (s', out) →
      rows s' = (rows s).filterMap fun d => if hit params d then after params d else some d

section

variable {S D : Type} {db : Postgres S} {p : PreparedExec} (R : RowWise D db p) {sets : List (List GoValue)}

/-- A row that one parameter set selects is selected by no later one, neither as it was nor as it is left. -/
def Apart (sets : List (List GoValue)) : Prop :=
  ∀ d, sets.Pairwise fun a b => R.hit a d = true → R.hit b d = false ∧ ∀ d' ∈ R.after a d, R.hit b d' = false

/-- An update changes what is read of each row it hits. -/
def RowWise.Effective : Prop :=
  ∀ params d, R.hit params d = true → ∀ d' ∈ R.after params d, scan (R.cells d') ≠ scan (R.cells d)

variable {R}

/-- One statement leaves the rows of a later one alone. -/
theorem filter_hit_step {a b : List GoValue}
    (hab : ∀ d, R.hit a d = true → R.hit b d = false ∧ ∀ d' ∈ R.after a d, R.hit b d' = false) (rows : List D) :
    (rows.filterMap fun d => if R.hit a d then R.after a d else some d).filter (R.hit b) = rows.filter (R.hit b) := by
  induction rows with
  | nil => rfl
  | cons d rows ih =>
    by_cases hd : R.hit a d = true
    · obtain ⟨hb, hafter⟩ := hab d hd
      rw [filterMap_cons, if_pos hd, filter_cons, hb, if_neg Bool.false_ne_true, ← ih]
      cases hd' : R.after a d with
      | none => rfl
      | some d' => rw [filter_cons, hafter d' hd', if_neg Bool.false_ne_true]
    · rw [filterMap_cons, if_neg hd, filter_cons, filter_cons, ih]

/-- `s₀` is the state before the batch: the later parameter sets still select in `s` what they select there. -/
theorem rowsStay_of_apart {s₀ s : S} (hapart : Apart R sets)
    (hsame : ∀ b ∈ sets, (R.rows s).filter (R.hit b) = (R.rows s₀).filter (R.hit b)) : RowsStay db p Eq s₀ sets s := by
  induction sets generalizing s with
  | nil => trivial
  | cons a sets ih =>
    refine ⟨fun before now hbefore hnow => ?_, fun s' out hrun => ?_⟩
    · rw [R.reads hbefore, R.reads hnow, hsame a mem_cons_self]
    refine ih (fun d => (hapart d).of_cons) fun b hb => ?_
    rw [R.writes hrun, filter_hit_step fun d => rel_of_pairwise_cons (hapart d) hb]
    exact hsame b (mem_cons_of_mem _ hb)

section Necessary

variable {paramSets : List (List GoValue)} (helig : pipelineEligible p paramSets = true) (haud : p.audited = true)
  {s₀ : S} {d : D} (hrows₀ : R.rows s₀ = [d])
include helig haud hrows₀

/-- Once the batch has changed a row, no later statement selects it. -/
theorem not_hit_of_rowsStay {s : S} {cur : Option D} {out : S × List RowResult} (hrows : R.rows s = cur.toList)
    (hchanged : ∀ d' ∈ cur, scan (R.cells d') ≠ scan (R.cells d))
    (hread : ∀ b ∈ sets, ∃ found, db.matching p.stmt b s₀ = .ok found)
    (hseq : execSequential db p sets s = .ok out)
    (hstay : RowsStay db p (fun x y => (x.map scan).Perm (y.map scan)) s₀ sets s) :
    ∀ b ∈ sets, R.hit b d = false ∧ ∀ d' ∈ cur, R.hit b d' = false := by
  induction sets generalizing s out with
  | nil => exact fun b hb => absurd hb not_mem_nil
  | cons b sets ih =>
    obtain ⟨⟨s1, r⟩, hrow, hseq⟩ := bind_eq_ok.mp hseq
    obtain ⟨⟨s2, rs⟩, hrest, -⟩ := bind_eq_ok.mp hseq
    obtain ⟨now, tag, returned, hnow, hrun, -⟩ := execRow_ok helig hrow
    obtain ⟨found, hfound⟩ := hread b mem_cons_self
    -- the statement finds as many rows as before the batch, and not the same one
    have hperm := hstay.1 found now hfound (hnow haud)
    rw [R.reads hfound, R.reads (hnow haud), hrows₀, hrows] at hperm
    have hb : R.hit b d = false ∧ ∀ d' ∈ cur, R.hit b d' = false := by
      cases cur with
      | none => simpa using hperm.length_eq
      | some d' =>
        have hne := hchanged d' rfl
        cases hd : R.hit b d <;> cases hd' : R.hit b d' <;> simp [hd, hd'] at hperm ⊢
        exact absurd hperm.symm hne
    have hrows' : R.rows s1 = cur.toList := by
      rw [R.writes hrun, hrows]
      cases cur with
      | none => rfl
      | some d' => simp [hb.2 d' rfl]
    intro c hc
    rcases mem_cons.mp hc with rfl | hc
    · exact hb
    · exact ih hrows' (fun c hc => hread c (mem_cons_of_mem _ hc)) hrest (hstay.2 s1 _ hrun) c hc

theorem pairwise_of_rowsStay (heffective : R.Effective) {s : S} {out : S × List RowResult} (hrows : R.rows s = [d])
    (hread : ∀ b ∈ sets, ∃ found, db.matching p.stmt b s₀ = .ok found)
    (hseq : execSequential db p sets s = .ok out)
    (hstay : RowsStay db p (fun x y => (x.map scan).Perm (y.map scan)) s₀ sets s) :
    sets.Pairwise fun a b => R.hit a d = true → R.hit b d = false ∧ ∀ d' ∈ R.after a d, R.hit b d' = false := by
  induction sets generalizing s out with
  | nil => exact .nil
  | cons a sets ih =>
    obtain ⟨⟨s1, r⟩, hrow, hseq⟩ := bind_eq_ok.mp hseq
    obtain ⟨⟨s2, rs⟩, hrest, -⟩ := bind_eq_ok.mp hseq
    obtain ⟨now, tag, returned, -, hrun, -⟩ := execRow_ok helig hrow
    have hread' : ∀ b ∈ sets, ∃ found, db.matching p.stmt b s₀ = .ok found :=
      fun b hb => hread b (mem_cons_of_mem _ hb)
    have hstay' := hstay.2 s1 _ hrun
    have hwrites := R.writes hrun
    rw [hrows, filterMap_cons, filterMap_nil] at hwrites
    by_cases ha : R.hit a d = true
    · rw [if_pos ha] at hwrites
      have hrows' : R.rows s1 = (R.after a d).toList := by
        rw [hwrites]
        cases R.after a d <;> rfl
      have hlater := not_hit_of_rowsStay helig haud hrows₀ hrows' (heffective a d ha) hread' hrest hstay'
      refine pairwise_cons.mpr ⟨fun b hb _ => hlater b hb, ?_⟩
      refine pairwise_of_forall_mem_list fun b hb c _ hhit => ?_
      rw [(hlater b hb).1] at hhit
      cases hhit
    · rw [if_neg ha] at hwrites
      exact pairwise_cons.mpr ⟨fun b _ hhit => absurd hhit ha, ih hwrites hread' hrest hstay'⟩

end Necessary

/-! ## Statements that address rows by a key -/

/-- `WHERE` compares a key that the statement keeps with one parameter, and refers to no other. -/
structure ByKey (R : RowWise D db p) (K : Type) where
  key : D → K
  /-- the key that Postgres reads from a parameter -/
  ofParam : GoValue → K
  number : Int
  refs : ∀ w ∈ p.stmt.whereClause, ∀ n ∈ paramNumbers w, n = number
  selects : ∀ {params : List GoValue} {d : D}, R.hit params d = true →
    key d = ofParam (params.getD (number - 1).toNat .nil)
  keeps : ∀ {params : List GoValue} {d d' : D}, R.after params d = some d' → key d' = key d

/-- Values of the parameter that print differently are different keys: `1` and `"1"` are not. -/
def ByKey.Told {R : RowWise D db p} {K : Type} (B : ByKey R K) (sets : List (List GoValue)) : Prop :=
  ∀ a ∈ sets, ∀ b ∈ sets,
    B.ofParam (a.getD (B.number - 1).toNat .nil) = B.ofParam (b.getD (B.number - 1).toNat .nil) →
      goSyntax (a.getD (B.number - 1).toNat .nil) = goSyntax (b.getD (B.number - 1).toNat .nil)

theorem targetKey_congr {nums : List Int} {number : Int} (hnums : ∀ n ∈ nums, n = number) {a b : List GoValue}
    (hsame : goSyntax (a.getD (number - 1).toNat .nil) = goSyntax (b.getD (number - 1).toNat .nil))
    (ha : (targetKey nums a).isSome) (hb : (targetKey nums b).isSome) : targetKey nums a = targetKey nums b := by
  induction nums with
  | nil => rfl
  | cons n nums ih =>
    obtain rfl := hnums n mem_cons_self
    unfold targetKey at ha hb ⊢
    split at ha
    · cases ha
    split at hb
    · cases hb
    rename_i hna hnb
    rw [Option.isSome_map] at ha hb
    rw [if_neg hna, if_neg hnb, hsame, ih (fun m hm => hnums m (mem_cons_of_mem _ hm)) ha hb]

/-- What the loop over the parameter sets establishes. -/
theorem repeatsKey_false {nums : List Int} {seen : List String} (h : repeatsKey nums seen sets = false) :
    (∀ a ∈ sets, ∃ key, targetKey nums a = some key ∧ key ∉ seen) ∧
      sets.Pairwise fun a b => targetKey nums a ≠ targetKey nums b := by
  induction sets generalizing seen with
  | nil => exact ⟨fun a ha => absurd ha not_mem_nil, .nil⟩
  | cons a sets ih =>
    rw [repeatsKey] at h
    cases hkey : targetKey nums a with
    | none => simp [hkey] at h
    | some key =>
      simp only [hkey, Bool.or_eq_false_iff, contains_eq_mem, decide_eq_false_iff_not] at h
      obtain ⟨hall, hpairs⟩ := ih h.2
      constructor
      · intro b hb
        rcases mem_cons.mp hb with rfl | hb
        · exact ⟨key, hkey, h.1⟩
        · obtain ⟨key', hkey', hnot⟩ := hall b hb
          exact ⟨key', hkey', fun hmem => hnot (mem_cons_of_mem _ hmem)⟩
      · refine pairwise_cons.mpr ⟨fun b hb heq => ?_, hpairs⟩
        obtain ⟨key', hkey', hnot⟩ := hall b hb
        rw [hkey, hkey'] at heq
        cases heq
        exact hnot mem_cons_self

/-- **The duplicate check tells the rows apart** where they are addressed by a key. -/
theorem ByKey.apart {K : Type} (B : ByKey R K) (haud : p.audited = true) (helig : pipelineEligible p sets = true)
    (htold : B.Told sets) : Apart R sets := by
  obtain ⟨-, -, -, helig⟩ := pipelineEligible_true helig
  have hdup := (helig haud).2
  simp only [pipelineHasDuplicateAuditTargets, Bool.or_eq_false_iff] at hdup
  obtain ⟨hkeys, hpairs⟩ := repeatsKey_false hdup.2
  have hnums : ∀ n ∈ (match p.stmt.whereClause with | none => [] | some w => paramNumbers w), n = B.number := by
    intro n hn
    cases hw : p.stmt.whereClause with
    | none => simp [hw] at hn
    | some w =>
      rw [hw] at hn
      exact B.refs w hw n hn
  have hapart : sets.Pairwise fun a b =>
      B.ofParam (a.getD (B.number - 1).toNat .nil) ≠ B.ofParam (b.getD (B.number - 1).toNat .nil) := by
    refine hpairs.imp_of_mem fun {a b} ha hb hne heq => hne ?_
    obtain ⟨_, hka, -⟩ := hkeys a ha
    obtain ⟨_, hkb, -⟩ := hkeys b hb
    exact targetKey_congr hnums (htold a ha b hb heq) (by rw [hka]; rfl) (by rw [hkb]; rfl)
  -- a row that both select, before or after the first one, would have both keys
  intro d
  refine hapart.imp fun {a b} hne ha => ⟨?_, fun d' hd' => ?_⟩
  · by_contra hb
    exact hne ((B.selects ha).symm.trans (B.selects (by simpa using hb)))
  · by_contra hb
    exact hne ((B.selects ha).symm.trans ((B.keeps hd').symm.trans (B.selects (by simpa using hb))))

end

/-- The value of `id op $n` on a row. -/
def stockWhere (w : Option Node) (params : List GoValue) (row : Int × Int) : Bool :=
  match w with
  | none => true
  | some w =>
    match (w.getAll .name).map Tree.label, (w.get? .rexpr).map Tree.label with
    | [.string op], some (.paramRef n) =>
      match params[(n - 1).toNat]? with
      | some (.int _ v) => if op = "=" then row.1 = v else if op = ">=" then v ≤ row.1 else false
      | _ => false
    | _, _ => false

/-- `UPDATE stock SET qty = qty - 1 WHERE …` and `DELETE FROM stock WHERE …` on a list of rows. -/
def stockRun (n : Node) (params : List GoValue) (s : List (Int × Int)) :
    Except String (List (Int × Int) × Nat × List (Int × Int)) :=
  let hit := stockWhere (n.get? .whereClause) params
  match n.label with
  | .updateStmt =>
    let changed := (s.filter hit).map fun row => (row.1, row.2 - 1)
    .ok (s.map fun row => if hit row then (row.1, row.2 - 1) else row, changed.length, changed)
  | .deleteStmt => .ok (s.filter fun row => !hit row, (s.filter hit).length, s.filter hit)
  | _ => .error "unsupported"

/-- Columns `id` and `qty`, both `bigint`. -/
def stockCells (row : Int × Int) : DbRow := [("id", .int 64 row.1), ("qty", .int 64 row.2)]

def stockDb : Postgres (List (Int × Int)) where
  run n params s := (stockRun n params s).map fun out => (out.1, out.2.1, out.2.2.map stockCells)
  matching stmt params s := .ok ((s.filter (stockWhere stmt.whereClause params)).map stockCells)
  columns _ _ := .ok ["id", "qty"]
  returns _ := [("id", .int 64), ("qty", .int 64)]
  run_typed {n params s s' tag rows} hrun row hrow x hx := by
    cases hout : stockRun n params s with
    | error e => simp [hout, Except.map] at hrun
    | ok out =>
      simp only [hout, Except.map, Except.ok.injEq, Prod.mk.injEq] at hrun
      obtain ⟨-, -, rfl⟩ := hrun
      obtain ⟨d, -, rfl⟩ := mem_map.mp hrow
      rcases mem_pair.mp hx with rfl | rfl
      · exact ⟨_, mem_cons_self, rfl⟩
      · exact ⟨_, mem_cons_self, rfl⟩

/-- `UPDATE stock SET qty = qty - 1 WHERE id op $1`. -/
def stockUpdate (op : String) : Node :=
  .mk .updateStmt [(.relation, .mk (.rangeVar "" "stock") []),
    (.targetList, .mk (.resTarget "qty") [(.val, .mk (.aExpr true) [(.name, .mk (.string "-") []),
      (.lexpr, .mk .columnRef [(.fields, .mk (.string "qty") [])]), (.rexpr, .mk (.other "A_Const") [])])]),
    (.whereClause, .mk (.aExpr true) [(.name, .mk (.string op) []),
      (.lexpr, .mk .columnRef [(.fields, .mk (.string "id") [])]), (.rexpr, .mk (.paramRef 1) [])])]

def byKeyTree : ParseTree where
  stmts := [stockUpdate "="]
  placed := by decide

def byRangeTree : ParseTree where
  stmts := [stockUpdate ">="]
  placed := by decide

/-- A module whose table `stock` is audited. -/
def stockContext : ModuleContext where
  moduleName := "wh"
  modelDecls := [⟨"stock", "stock", [⟨"id", true, false⟩, ⟨"qty", false, false⟩]⟩]
  dataAuditRegistry := some fun name => if name = "wh.stock" then some [] else none

/-- The statement as `prepareExec` leaves it: audited, with `RETURNING *`. -/
def stockExec (op : String) : PreparedExec :=
  let stmt : ExecStmt := {
    operation := .update
    relation := (stockUpdate op).get? .relation
    whereClause := (stockUpdate op).get? .whereClause
    fromClause := []
    returningList := []
    stmtNode := stockUpdate op }
  { stmt
    table := "stock"
    finalStmt := setReturningList (stockUpdate op) (returningAllResTarget stmt)
    needReturning := true
    requestedCols := none
    audit := some ("id", [])
    hasEtagCol := false
    hadEtagCheck := false
    tracked := none }

theorem stock_decodesAlike (op : String) : DecodesAlike stockDb (stockExec op) := by
  intro c hc
  rcases mem_pair.mp hc with rfl | rfl <;> rfl

def stockRowWise (op : String) : RowWise (Int × Int) stockDb (stockExec op) where
  rows := id
  cells := stockCells
  hit := stockWhere ((stockUpdate op).get? .whereClause)
  after _ row := some (row.1, row.2 - 1)
  reads hfound := by
    cases hfound
    rfl
  writes {params s s' out} hrun := by
    cases hrun
    rw [id_eq, id_eq, ← filterMap_eq_map]
    refine filterMap_congr fun row _ => ?_
    show some (if stockWhere ((stockUpdate op).get? .whereClause) params row then _ else _) = _
    split <;> rfl

theorem stockWhere_key {params : List GoValue} {row : Int × Int}
    (h : stockWhere ((stockUpdate "=").get? .whereClause) params row = true) :
    ∃ bits, params[0]? = some (.int bits row.1) := by
  have hfirst : (match (params[0]? : Option GoValue) with
      | some (.int _ v) => decide (row.1 = v)
      | _ => false) = true := h
  split at hfirst
  · rename_i bits v hparam
    exact ⟨bits, by rw [hparam, of_decide_eq_true hfirst]⟩
  · cases hfirst

/-- The row's `id` is compared with `$1`, which a `bigint` parameter holds. -/
def stockByKey : ByKey (stockRowWise "=") (Option Int) where
  key row := some row.1
  ofParam v := match v with
    | .int _ i => some i
    | _ => none
  number := 1
  refs w hw n hn := by
    cases hw
    have hnums : n ∈ [(1 : Int)] := hn
    simpa using hnums
  selects {params d} hhit := by
    obtain ⟨bits, hparam⟩ := stockWhere_key hhit
    simp [hparam]
  keeps hafter := by
    cases hafter
    rfl

/-- Two parameter sets, `1` and `2`. -/
def twoKeys : List (List GoValue) := [[.int 64 1], [.int 64 2]]

end GoErp.Db
