import GoErp.Db.Batch

/-!
# `Db.Copy` — a batch of inserts as one `COPY`

`resolveCopyPlan` (`wasm/host_db_exec_batch_fast.go`) decides whether an `INSERT` batch of more than a hundred
parameter sets is copied into the table instead. It looks at the statement's shape: one `VALUES` row of the
placeholders `$1 … $n` for the `n` columns, without `ON CONFLICT`.

`InsertSem` says how Postgres runs an `INSERT`, leaving open what each clause does. `COPY` agrees with it exactly when
the statement has none of the clauses the shape test does not look at, and no row security applies to the table
(`copy_agrees_iff`).
-/

namespace GoErp.Db

open PgQuery Lib List

/-! ## The plan -/

def copyEligibleRowThreshold : Nat := 100

/-- Item `i` is the placeholder `$(i + 1)`. -/
def itemsAreParams (i : Nat) : List Node → Bool
  | [] => true
  | item :: rest => item.label == .paramRef (i + 1) && itemsAreParams (i + 1) rest

def isInsert (n : Node) : Bool :=
  match n.label with
  | .insertStmt _ => true
  | _ => false

def insertValuesAllParams (stmt : ExecStmt) : Bool :=
  let n := stmt.stmtNode
  isInsert n && (n.get? .onConflictClause).isNone && !(n.getAll .cols).isEmpty &&
    match n.get? .selectStmt with
    | none => false
    | some sel =>
      sel.label == .selectStmt &&
        match sel.getAll .valuesLists with
        | [list] =>
          list.label == .list && (list.getAll .items).length == (n.getAll .cols).length &&
            itemsAreParams 0 (list.getAll .items)
        | _ => false

def columnName (c : Node) : String :=
  match c.label with
  | .resTarget name => name
  | _ => ""

def insertColumnNames (stmt : ExecStmt) : List String := (stmt.stmtNode.getAll .cols).map columnName

def insertPrimaryKeyColumn (modCtx : ModuleContext) (table : String) : Option String :=
  (modCtx.modelOf table).bind primaryKeyColumn

/-- An eligible plan; `pkCol` is set when the copied rows have to be read back. -/
structure CopyPlan where
  columns : List String
  pkCol : Option String

/-- The primary key the copied rows are read back by. -/
def readbackPkCol (p : PreparedExec) (modCtx : ModuleContext) : String :=
  if p.pkCol ≠ "" then p.pkCol else (insertPrimaryKeyColumn modCtx p.table).getD ""

/-- `resolveCopyPlan`; `none` is a plan that is not eligible. -/
def resolveCopyPlan (p : PreparedExec) (numRows : Nat) (modCtx : ModuleContext) : Option CopyPlan :=
  if p.stmt.operation ≠ .insert ∨ numRows ≤ copyEligibleRowThreshold then none
  else if insertValuesAllParams p.stmt = false then none
  else
    let columns := insertColumnNames p.stmt
    let pkCol := readbackPkCol p modCtx
    if p.audited || p.requestedCols.isSome then
      if pkCol = "" ∨ pkCol ∉ columns then none else some ⟨columns, some pkCol⟩
    else some ⟨columns, none⟩

/-! ## What the two ways insert -/

/-- A target column: its name and the subscripts or fields below it. -/
abbrev Col := String × List Node

/-- How Postgres runs the clauses of an `INSERT`, for the role that runs the batch. -/
structure InsertSem (S : Type) where
  /-- the tables whose row policies apply to the role; `schema/rls.go` enables row security -/
  rowSecurity : String → Bool
  /-- a `WITH` clause, which runs its data-modifying statements -/
  withClause : Node → List GoValue → S → Except String S
  /-- an `ORDER BY`, with what its expressions do -/
  sort : List Node → List GoValue → List (List GoValue) → S → Except String (List (List GoValue))
  /-- `FOR UPDATE` and the like -/
  lock : List Node → S → Except String S
  /-- a row count of `LIMIT` or `OFFSET`; `none` is no limit -/
  count : Node → List GoValue → S → Except String (Option Nat)
  /-- an expression of a `VALUES` row -/
  value : Node → List GoValue → S → Except String GoValue
  /-- the rows of a query that is no `VALUES` list -/
  query : Node → List GoValue → S → Except String (List (List GoValue))
  /-- one row, with the table's defaults, triggers and row policies -/
  insertRow : String → Overriding → Option Node → List Col → List GoValue → S → Except String S
  /-- a placeholder is its parameter -/
  value_param : ∀ (n : Nat) (children : List (Field × Node)) (params : List GoValue) (s : S) (v : GoValue),
    params[n]? = some v → value (.mk (.paramRef (n + 1)) children) params s = .ok v

section

variable {S : Type} (db : InsertSem S)

def runWith (w : Option Node) (params : List GoValue) (s : S) : Except String S :=
  match w with
  | none => .ok s
  | some w => db.withClause w params s

def runSort (items : List Node) (params : List GoValue) (rows : List (List GoValue)) (s : S) :
    Except String (List (List GoValue)) :=
  match items with
  | [] => .ok rows
  | items => db.sort items params rows s

def runLock (locks : List Node) (s : S) : Except String S :=
  match locks with
  | [] => .ok s
  | locks => db.lock locks s

def runCount (c : Option Node) (params : List GoValue) (s : S) : Except String (Option Nat) :=
  match c with
  | none => .ok none
  | some c => db.count c params s

/-- The values of the expressions of a list. -/
def evalItems (params : List GoValue) (s : S) : List Node → Except String (List GoValue)
  | [] => .ok []
  | item :: rest => do
    let v ← db.value item params s
    let vs ← evalItems params s rest
    .ok (v :: vs)

def evalRows (params : List GoValue) (s : S) : List Node → Except String (List (List GoValue))
  | [] => .ok []
  | list :: rest => do
    let row ← evalItems db params s (list.getAll .items)
    let rows ← evalRows params s rest
    .ok (row :: rows)

/-- The rows of the query an `INSERT` takes them from, without its `ORDER BY`, `LIMIT` and `OFFSET`. -/
def sourceRows (q : Node) (params : List GoValue) (s : S) : Except String (List (List GoValue)) :=
  match q.getAll .valuesLists with
  | [] => db.query q params s
  | lists => evalRows db params s lists

def limitRows (rows : List (List GoValue)) (offset limit : Option Nat) : List (List GoValue) :=
  let rows := rows.drop (offset.getD 0)
  match limit with
  | none => rows
  | some n => rows.take n

def insertAll (table : String) (override : Overriding) (conflict : Option Node) (cols : List Col) :
    List (List GoValue) → S → Except String S
  | [], s => .ok s
  | row :: rows, s => do
    let s ← db.insertRow table override conflict cols row s
    insertAll table override conflict cols rows s

def overriding (n : Node) : Overriding :=
  match n.label with
  | .insertStmt override => override
  | _ => .default

def targetCols (n : Node) : List Col := (n.getAll .cols).map fun c => (columnName c, c.getAll .indirection)

/-- One run of the statement. -/
def runInsert (n : Node) (params : List GoValue) (s : S) : Except String S := do
  let s ← runWith db (n.get? .withClause) params s
  match n.get? .selectStmt with
  | none => db.insertRow (targetTable n) (overriding n) (n.get? .onConflictClause) (targetCols n) [] s
  | some q => do
    let s ← runWith db (q.get? .withClause) params s
    let rows ← sourceRows db q params s
    let rows ← runSort db (q.getAll .sortClause) params rows s
    let s ← runLock db (q.getAll .lockingClause) s
    let offset ← runCount db (q.get? .limitOffset) params s
    let limit ← runCount db (q.get? .limitCount) params s
    insertAll db (targetTable n) (overriding n) (n.get? .onConflictClause) (targetCols n)
      (limitRows rows offset limit) s

/-- The batch, one statement for each parameter set. -/
def insertSets (n : Node) : List (List GoValue) → S → Except String S
  | [], s => .ok s
  | params :: rest, s => do
    let s ← runInsert db n params s
    insertSets n rest s

/-- The rows of a `COPY`, each inserted as it is. -/
def copyRows (table : String) (columns : List String) : List (List GoValue) → S → Except String S
  | [], s => .ok s
  | params :: rest, s => do
    let s ← db.insertRow table .default none (columns.map fun c => (c, [])) params s
    copyRows table columns rest s

/-- `CopyFrom`: the rows copied into the columns. Postgres copies into no table whose row policies apply. -/
def copySets (table : String) (columns : List String) (sets : List (List GoValue)) (s : S) : Except String S :=
  if db.rowSecurity table then .error "COPY FROM not supported with row-level security"
  else copyRows db table columns sets s

end

/-! ## When they agree -/

/-- The clauses the shape test does not look at are absent: the `VALUES` row alone decides what is inserted. -/
structure PlainValues (n : Node) : Prop where
  noWith : n.get? .withClause = none
  noQueryWith : ∀ q, n.get? .selectStmt = some q → q.get? .withClause = none
  noSort : ∀ q, n.get? .selectStmt = some q → q.getAll .sortClause = []
  noLock : ∀ q, n.get? .selectStmt = some q → q.getAll .lockingClause = []
  noOffset : ∀ q, n.get? .selectStmt = some q → q.get? .limitOffset = none
  noLimit : ∀ q, n.get? .selectStmt = some q → q.get? .limitCount = none
  noOverride : overriding n = .default
  noSubscript : ∀ c ∈ n.getAll .cols, c.getAll .indirection = []

/-- The shape of a statement that passes the test. -/
theorem insertValuesAllParams_shape {stmt : ExecStmt} (h : insertValuesAllParams stmt = true) :
    stmt.stmtNode.get? .onConflictClause = none ∧
    ∃ q list, stmt.stmtNode.get? .selectStmt = some q ∧ q.getAll .valuesLists = [list] ∧
      (list.getAll .items).length = (stmt.stmtNode.getAll .cols).length ∧
      itemsAreParams 0 (list.getAll .items) = true := by
  simp only [insertValuesAllParams, Bool.and_eq_true] at h
  obtain ⟨⟨⟨-, hconf⟩, -⟩, h⟩ := h
  refine ⟨Option.isNone_iff_eq_none.mp hconf, ?_⟩
  split at h
  · cases h
  rename_i q hq
  rw [Bool.and_eq_true] at h
  replace h := h.2
  split at h
  · rename_i list hlist
    simp only [Bool.and_eq_true, beq_iff_eq] at h
    exact ⟨q, list, hq, hlist, h.1.2, h.2⟩
  · cases h

/-- What an eligible plan says of the statement. -/
theorem resolveCopyPlan_eligible {p : PreparedExec} {numRows : Nat} {modCtx : ModuleContext} {plan : CopyPlan}
    (h : resolveCopyPlan p numRows modCtx = some plan) :
    copyEligibleRowThreshold < numRows ∧ insertValuesAllParams p.stmt = true ∧
      plan.columns = insertColumnNames p.stmt := by
  unfold resolveCopyPlan at h
  split at h
  · cases h
  split at h
  · cases h
  rename_i hshape
  refine ⟨by omega, by simpa using hshape, ?_⟩
  dsimp only at h
  -- with or without the read-back, the columns are those of the statement
  split at h
  · split at h
    · cases h
    · rw [← Option.some.inj h]
  · rw [← Option.some.inj h]

section

variable {S : Type} (db : InsertSem S)

/-- Placeholders in order evaluate to the parameters. -/
theorem evalItems_params (params : List GoValue) (s : S) :
    ∀ (items : List Node) (i : Nat), itemsAreParams i items = true → params.length = i + items.length →
      evalItems db params s items = .ok (params.drop i) := by
  intro items
  induction items with
  | nil =>
    intro i _ hlen
    rw [drop_of_length_le (by simp at hlen; omega)]
    rfl
  | cons item rest ih =>
    intro i hitems hlen
    rw [itemsAreParams, Bool.and_eq_true, beq_iff_eq] at hitems
    rw [length_cons] at hlen
    have hi : i < params.length := by omega
    have hvalue : db.value item params s = .ok params[i] := by
      cases item with
      | mk label children =>
        rw [show label = .paramRef (i + 1) from hitems.1]
        exact db.value_param i children params s _ (getElem?_eq_getElem hi)
    rw [evalItems, hvalue, drop_eq_getElem_cons hi]
    show (evalItems db params s rest >>= fun vs => .ok (params[i] :: vs)) = _
    rw [ih (i + 1) hitems.2 (by omega)]
    rfl

/-- The query of an eligible statement has one row, the parameters. -/
theorem sourceRows_params {q list : Node} (params : List GoValue) (s : S) (hlists : q.getAll .valuesLists = [list])
    (hitems : itemsAreParams 0 (list.getAll .items) = true) (hlen : params.length = (list.getAll .items).length) :
    sourceRows db q params s = .ok [params] := by
  unfold sourceRows
  rw [hlists]
  show (evalItems db params s (list.getAll .items) >>= fun row => evalRows db params s [] >>= fun rows =>
    .ok (row :: rows)) = _
  rw [evalItems_params db params s _ 0 hitems (by omega)]
  rfl

variable {stmt : ExecStmt}

/-- Without subscripts, the target columns are the plan's. -/
theorem targetCols_plain (h : ∀ c ∈ stmt.stmtNode.getAll .cols, c.getAll .indirection = []) :
    targetCols stmt.stmtNode = (insertColumnNames stmt).map fun c => (c, []) := by
  unfold targetCols insertColumnNames
  rw [List.map_map]
  refine map_congr_left fun c hc => ?_
  rw [h c hc]
  rfl

/-- One parameter set: the statement inserts the row that is copied. -/
theorem runInsert_plain (hshape : insertValuesAllParams stmt = true) (hplain : PlainValues stmt.stmtNode)
    (params : List GoValue) (hlen : params.length = (insertColumnNames stmt).length) (s : S) :
    runInsert db stmt.stmtNode params s =
      db.insertRow (targetTable stmt.stmtNode) .default none ((insertColumnNames stmt).map fun c => (c, []))
        params s := by
  obtain ⟨hconf, q, list, hq, hlists, hcount, hitems⟩ := insertValuesAllParams_shape hshape
  have hrows := sourceRows_params db params s hlists hitems (by
    rw [hlen, hcount, insertColumnNames, length_map])
  rw [runInsert, hplain.noWith, hq, hconf, hplain.noOverride, targetCols_plain hplain.noSubscript]
  show (runWith db (q.get? .withClause) params s >>= fun s => _) = _
  rw [hplain.noQueryWith q hq]
  show (sourceRows db q params s >>= fun rows => _) = _
  rw [hrows, hplain.noSort q hq, hplain.noLock q hq, hplain.noOffset q hq, hplain.noLimit q hq]
  show (db.insertRow _ _ _ _ _ s >>= fun s => .ok s) = _
  cases db.insertRow (targetTable stmt.stmtNode) .default none ((insertColumnNames stmt).map fun c => (c, []))
    params s with
  | error e => rfl
  | ok s => rfl

theorem insertSets_eq_copyRows (hshape : insertValuesAllParams stmt = true) (hplain : PlainValues stmt.stmtNode) :
    ∀ (sets : List (List GoValue)) (s : S), (∀ params ∈ sets, params.length = (insertColumnNames stmt).length) →
      copyRows db (targetTable stmt.stmtNode) (insertColumnNames stmt) sets s =
        insertSets db stmt.stmtNode sets s := by
  intro sets
  induction sets with
  | nil => intro s _; rfl
  | cons params rest ih =>
    intro s hlen
    rw [copyRows, insertSets, runInsert_plain db hshape hplain params (hlen params (by simp)) s]
    refine bind_congr fun s' => ?_
    exact ih s' fun params' h => hlen params' (by simp [h])

end


section

/-- The value of an expression, in a database that knows placeholders only. -/
def paramValue (item : Node) (params : List GoValue) : Except String GoValue :=
  match item.label with
  | .paramRef (.ofNat (n + 1)) =>
    match params[n]? with
    | some v => .ok v
    | none => .error "parameter"
  | _ => .error "expression"

variable {params : List GoValue}

theorem paramValue_paramRef {n : Nat} {children : List (Field × Node)} {v : GoValue}
    (hv : params[n]? = some v) : paramValue (.mk (.paramRef (n + 1)) children) params = .ok v := by
  show (match params[n]? with | some v => Except.ok v | none => .error "parameter") = .ok v
  rw [hv]

/-- A database that rejects everything but a plain row: each of the other clauses shows. -/
def plainOnly : InsertSem Unit where
  rowSecurity _ := false
  withClause _ _ _ := .error "WITH"
  sort _ _ _ _ := .error "ORDER BY"
  lock _ _ := .error "FOR UPDATE"
  count _ _ _ := .error "LIMIT"
  value item params _ := paramValue item params
  query _ _ _ := .error "query"
  insertRow _ override _ cols _ _ :=
    if override = .default ∧ ∀ c ∈ cols, c.2 = [] then .ok () else .error "row"
  value_param _ _ _ _ _ hv := paramValue_paramRef hv

/-- A database that takes every row, by `COPY` only where there is no row security. -/
def takesAll (secured : String → Bool) : InsertSem Unit where
  rowSecurity := secured
  withClause _ _ _ := .ok ()
  sort _ _ rows _ := .ok rows
  lock _ _ := .ok ()
  count _ _ _ := .ok none
  value item params _ := paramValue item params
  query _ _ _ := .ok []
  insertRow _ _ _ _ _ _ := .ok ()
  value_param _ _ _ _ _ hv := paramValue_paramRef hv

theorem plainOnly_copyRows (table : String) (columns : List String) (sets : List (List GoValue)) :
    copyRows plainOnly table columns sets () = .ok () := by
  induction sets with
  | nil => rfl
  | cons params rest ih =>
    rw [copyRows]
    have hrow : plainOnly.insertRow table .default none (columns.map fun c => (c, [])) params () = .ok () :=
      if_pos ⟨rfl, by simp⟩
    rw [hrow]
    exact ih

theorem runWith_plainOnly {w : Option Node} {s s' : Unit} (h : runWith plainOnly w params s = .ok s') : w = none := by
  cases w with
  | none => rfl
  | some w => cases h

theorem runSort_plainOnly {items : List Node} {rows rows' : List (List GoValue)} {s : Unit}
    (h : runSort plainOnly items params rows s = .ok rows') : items = [] ∧ rows' = rows := by
  cases items with
  | nil => exact ⟨rfl, (Except.ok.inj h).symm⟩
  | cons item items => cases h

theorem runLock_plainOnly {locks : List Node} {s s' : Unit} (h : runLock plainOnly locks s = .ok s') : locks = [] := by
  cases locks with
  | nil => rfl
  | cons lock locks => cases h

theorem runCount_plainOnly {c : Option Node} {s : Unit} {n : Option Nat}
    (h : runCount plainOnly c params s = .ok n) : c = none ∧ n = none := by
  cases c with
  | none => exact ⟨rfl, (Except.ok.inj h).symm⟩
  | some c => cases h

/-- The statement runs there only if it has none of the other clauses. -/
theorem plainValues_of_plainOnly {stmt : ExecStmt} (hshape : insertValuesAllParams stmt = true)
    (hlen : params.length = (insertColumnNames stmt).length)
    (h : runInsert plainOnly stmt.stmtNode params () = .ok ()) : PlainValues stmt.stmtNode := by
  obtain ⟨-, q, list, hq, hlists, hcount, hitems⟩ := insertValuesAllParams_shape hshape
  have hrows := sourceRows_params plainOnly params () hlists hitems (by
    rw [hlen, hcount, insertColumnNames, length_map])
  obtain ⟨_, hwith, h⟩ := bind_eq_ok.mp h
  rw [hq] at h
  obtain ⟨_, hqwith, h⟩ := bind_eq_ok.mp h
  obtain ⟨rows, hrows', h⟩ := bind_eq_ok.mp h
  obtain ⟨sorted, hsort, h⟩ := bind_eq_ok.mp h
  obtain ⟨_, hlock, h⟩ := bind_eq_ok.mp h
  obtain ⟨offset, hoffset, h⟩ := bind_eq_ok.mp h
  obtain ⟨limit, hlimit, h⟩ := bind_eq_ok.mp h
  obtain ⟨hsorted, rfl⟩ := runSort_plainOnly hsort
  obtain ⟨hoff, rfl⟩ := runCount_plainOnly hoffset
  obtain ⟨hlim, rfl⟩ := runCount_plainOnly hlimit
  -- the one row reaches `insertRow`, which looks at the override and the columns
  cases Except.ok.inj (hrows.symm.trans hrows')
  obtain ⟨_, hrow, -⟩ := bind_eq_ok.mp (show (plainOnly.insertRow _ _ _ _ params () >>= fun s => .ok s) = _ from h)
  have hplain : overriding stmt.stmtNode = .default ∧ ∀ c ∈ targetCols stmt.stmtNode, c.2 = [] := by
    by_contra hne
    rw [show plainOnly.insertRow _ _ _ _ params () = .error "row" from if_neg hne] at hrow
    cases hrow
  have hquery : ∀ q', stmt.stmtNode.get? .selectStmt = some q' → q' = q := by
    intro q' hq'
    exact Option.some.inj (hq'.symm.trans hq)
  exact {
    noWith := runWith_plainOnly hwith
    noQueryWith := fun q' hq' => hquery q' hq' ▸ runWith_plainOnly hqwith
    noSort := fun q' hq' => hquery q' hq' ▸ hsorted
    noLock := fun q' hq' => hquery q' hq' ▸ runLock_plainOnly hlock
    noOffset := fun q' hq' => hquery q' hq' ▸ hoff
    noLimit := fun q' hq' => hquery q' hq' ▸ hlim
    noOverride := hplain.1
    noSubscript := fun c hc => hplain.2 _ (mem_map_of_mem hc) }

theorem insertSets_takesAll {stmt : ExecStmt} {secured : String → Bool} (hshape : insertValuesAllParams stmt = true)
    {sets : List (List GoValue)} (hwidth : ∀ params ∈ sets, params.length = (insertColumnNames stmt).length) :
    insertSets (takesAll secured) stmt.stmtNode sets () = .ok () := by
  obtain ⟨-, q, list, hq, hlists, hcount, hitems⟩ := insertValuesAllParams_shape hshape
  induction sets with
  | nil => rfl
  | cons params rest ih =>
    have hrows := sourceRows_params (takesAll secured) params () hlists hitems (by
      rw [hwidth params mem_cons_self, hcount, insertColumnNames, length_map])
    have hrun : runInsert (takesAll secured) stmt.stmtNode params () = .ok () := by
      have hwith (w : Option Node) : runWith (takesAll secured) w params () = .ok () := by cases w <;> rfl
      have hsort : runSort (takesAll secured) (q.getAll .sortClause) params [params] () = .ok [params] := by
        cases q.getAll .sortClause <;> rfl
      have hlock : runLock (takesAll secured) (q.getAll .lockingClause) () = .ok () := by
        cases q.getAll .lockingClause <;> rfl
      have hlimit (c : Option Node) : runCount (takesAll secured) c params () = .ok none := by cases c <;> rfl
      rw [runInsert, hwith, hq]
      show (runWith (takesAll secured) (q.get? .withClause) params () >>= fun s => _) = _
      rw [hwith]
      show (sourceRows (takesAll secured) q params () >>= fun rows => _) = _
      rw [hrows]
      show (runSort (takesAll secured) (q.getAll .sortClause) params [params] () >>= fun rows => _) = _
      rw [hsort]
      show (runLock (takesAll secured) (q.getAll .lockingClause) () >>= fun s => _) = _
      rw [hlock]
      show (runCount (takesAll secured) (q.get? .limitOffset) params () >>= fun offset => _) = _
      rw [hlimit, hlimit]
      rfl
    rw [insertSets, hrun]
    exact ih fun params' h => hwidth params' (mem_cons_of_mem _ h)

end

/-- **Copying agrees with inserting exactly for plain `VALUES` statements on tables without row security**: whatever the
clauses do in the database, an eligible copy and the runs of its statement have the same effect if and only if the
statement has no `WITH` on itself or its query, no `ORDER BY`, `LIMIT`, `OFFSET` or `FOR UPDATE` on the query, no
`OVERRIDING` and no subscripted column, and no row policy applies to its table. -/
theorem copy_agrees_iff (modCtx : ModuleContext) (opts : ExecOpts) (tree : ParseTree) (p : PreparedExec)
    (numRows : Nat) (plan : CopyPlan) (secured : String → Bool) (hprep : prepareExec modCtx opts tree = .ok p)
    (hplan : resolveCopyPlan p numRows modCtx = some plan) :
    (∀ (S : Type) (db : InsertSem S) (sets : List (List GoValue)) (s : S), db.rowSecurity p.table = secured p.table →
      sets.length = numRows → (∀ params ∈ sets, params.length = plan.columns.length) →
      copySets db p.table plan.columns sets s = insertSets db p.stmt.stmtNode sets s) ↔
    PlainValues p.stmt.stmtNode ∧ secured p.table = false := by
  obtain ⟨-, -, htable, -⟩ := prepareExec_ok hprep
  obtain ⟨hrows, hshape, hcols⟩ := resolveCopyPlan_eligible hplan
  rw [htable, hcols]
  constructor
  · intro hagree
    have hlen : (List.replicate (insertColumnNames p.stmt).length GoValue.nil).length =
        (insertColumnNames p.stmt).length := length_replicate
    have hwidth : ∀ params ∈ List.replicate numRows (List.replicate (insertColumnNames p.stmt).length GoValue.nil),
        params.length = (insertColumnNames p.stmt).length := fun params hp => by rw [eq_of_mem_replicate hp, hlen]
    have hsecured : secured (targetTable p.stmt.stmtNode) = false := by
      by_contra hsec
      have hrun := hagree Unit (takesAll secured) _ () rfl length_replicate hwidth
      rw [insertSets_takesAll hshape hwidth, copySets, if_pos (Bool.not_eq_false _ ▸ hsec)] at hrun
      cases hrun
    have hrun := hagree Unit plainOnly _ () hsecured.symm length_replicate hwidth
    rw [copySets, if_neg (by simp [plainOnly]), plainOnly_copyRows] at hrun
    -- there is a first set, and the statement runs on it
    obtain ⟨n, rfl⟩ : ∃ n, numRows = n + 1 := ⟨numRows - 1, by omega⟩
    obtain ⟨_, hfirst, -⟩ := bind_eq_ok.mp hrun.symm
    exact ⟨plainValues_of_plainOnly hshape hlen hfirst, hsecured⟩
  · rintro ⟨hplain, hsecured⟩ S db sets s hsec _ hwidth
    rw [copySets, if_neg (by rw [hsec, hsecured]; decide)]
    exact insertSets_eq_copyRows db hshape hplain sets s hwidth

/-! ## Two batches -/

/-- The rows of `notes`, with a `WITH` clause that deletes them. -/
def notesDb : InsertSem (List (List GoValue)) where
  rowSecurity _ := false
  withClause w _ rows := .ok (if w.nodes.any fun n => n.label = .deleteStmt ∧ targetTable n = "notes" then [] else rows)
  sort _ _ rows _ := .ok rows
  lock _ rows := .ok rows
  count _ _ _ := .ok none
  value item params _ := paramValue item params
  query _ _ _ := .ok []
  insertRow _ _ _ _ row rows := .ok (rows ++ [row])
  value_param _ _ _ _ _ hv := paramValue_paramRef hv

/-- `INSERT INTO notes (id) VALUES ($1)`, with other clauses. -/
def insertNote (clauses : List (Field × Node)) : Node :=
  .mk (.insertStmt .default) ([(.relation, .mk (.rangeVar "" "notes") []), (.cols, .mk (.resTarget "id") []),
    (.selectStmt, .mk .selectStmt [(.valuesLists, .mk .list [(.items, .mk (.paramRef 1) [])])])] ++ clauses)

def insertNotes : ParseTree where
  stmts := [insertNote []]
  placed := by decide

/-- `WITH x AS (DELETE FROM notes) INSERT INTO notes (id) VALUES ($1)`. -/
def replaceNotes : ParseTree where
  stmts := [insertNote [(.withClause, .mk .withClause [(.ctes, .mk (.commonTableExpr "x")
    [(.ctequery, deleteFrom "notes")])])]]
  placed := by decide

theorem copy_agrees_iff_insertNotes : ∃ p plan, prepareExec salesContext plainOpts insertNotes = .ok p ∧
    resolveCopyPlan p 101 salesContext = some plan ∧ plan.columns = ["id"] ∧
    ∀ (S : Type) (db : InsertSem S) (sets : List (List GoValue)) (s : S), db.rowSecurity "notes" = false →
      sets.length = 101 → (∀ params ∈ sets, params.length = plan.columns.length) →
      copySets db p.table plan.columns sets s = insertSets db p.stmt.stmtNode sets s := by
  refine ⟨_, _, rfl, rfl, rfl, ?_⟩
  refine (copy_agrees_iff salesContext plainOpts insertNotes _ 101 _ (fun _ => false) rfl rfl).mpr ⟨?_, rfl⟩
  exact {
    noWith := rfl
    noQueryWith := fun q hq => by cases hq; rfl
    noSort := fun q hq => by cases hq; rfl
    noLock := fun q hq => by cases hq; rfl
    noOffset := fun q hq => by cases hq; rfl
    noLimit := fun q hq => by cases hq; rfl
    noOverride := rfl
    noSubscript := by decide }

/-- **A copy can leave out what the statement runs**: over `101` parameter sets the statement deletes the notes
    before each insert and leaves the last one, while the eligible copy leaves them all. -/
theorem copy_skips_delete : ∃ p plan, prepareExec salesContext plainOpts replaceNotes = .ok p ∧
    resolveCopyPlan p 101 salesContext = some plan ∧
    copySets notesDb p.table plan.columns ((List.range 101).map fun i => [.int 64 i]) [] =
      .ok ((List.range 101).map fun i => [.int 64 i]) ∧
    insertSets notesDb p.stmt.stmtNode ((List.range 101).map fun i => [.int 64 i]) [] = .ok [[.int 64 100]] := by
  refine ⟨_, _, rfl, rfl, ?_, ?_⟩
  · decide
  · decide

end GoErp.Db
