import GoErp.PgQuery.Scope

/-!
# `Db.Query` — what `host.db.query` lets through

`host.db.query` (`wasm/host_db_query.go`) runs a statement that passes `requireSelectOnly` and
`dbscope.ValidateTreeTableRefs`. A tree that passes should hold no statement that modifies data and no `SELECT …
INTO`, at any depth. `requireSelectOnly` looks at the top-level statements only, so it leaves out the queries of CTEs,
and `INTO` on a `SELECT` inside another statement.
-/

namespace GoErp.Db

open PgQuery Lib

inductive QueryError where
  | queryError (message : String)
  | tableAccessDenied (denial : Denial)
  deriving DecidableEq

/-- `requireSelectOnly`, over the statements of the tree. -/
def requireSelectOnly : List Node → Except QueryError Unit
  | [] => .ok ()
  | s :: rest =>
    if s.label ≠ .selectStmt then
      .error (.queryError ("host.db.query only permits SELECT statements — schema changes are handled " ++
        "exclusively by the schema sync engine, and writes go through host.db.exec"))
    else if (s.get? .intoClause).isSome then
      .error (.queryError "SELECT ... INTO is not permitted — it creates a table, which host.db.query does not allow")
    else requireSelectOnly rest

/-- The two checks `makeDBQuery` makes before anything runs. -/
def checkQuery (tree : ParseTree) : Except QueryError Unit := do
  requireSelectOnly tree.stmts
  match ValidateTreeTableRefs tree with
  | some denial => .error (.tableAccessDenied denial)
  | none => .ok ()

/-- No node of the tree modifies data or creates a table. -/
def ReadOnly (tree : ParseTree) : Prop :=
  ∀ n ∈ tree.root.nodes, n.label.isModify = false ∧ carriesInto n = false

/-- The query of every CTE, at any depth, leaves data alone. -/
def CtesRead (tree : ParseTree) : Prop :=
  ∀ s ∈ tree.stmts, ∀ m ∈ s.nodes, ∀ x ∈ m.children, x.1 = .ctequery → x.2.label.isModify = false

/-- No `SELECT` inside another statement (an arm of a set operation, a CTE, a subquery) has an `INTO`. -/
def NestedPlain (tree : ParseTree) : Prop :=
  ∀ s ∈ tree.stmts, ∀ m ∈ s.nodes, ∀ x ∈ m.children, carriesInto x.2 = false

theorem requireSelectOnly_ok {stmts : List Node} (h : requireSelectOnly stmts = .ok ()) :
    ∀ s ∈ stmts, s.label = .selectStmt ∧ carriesInto s = false := by
  induction stmts with
  | nil => simp
  | cons s rest ih =>
    rw [requireSelectOnly] at h
    split at h
    · cases h
    rename_i hsel
    split at h
    · cases h
    rename_i hinto
    rw [ne_eq, not_not] at hsel
    refine List.forall_mem_cons.mpr ⟨⟨hsel, ?_⟩, ih h⟩
    simpa [carriesInto, hsel] using hinto

theorem checkQuery_ok {tree : ParseTree} (h : checkQuery tree = .ok ()) :
    ∀ s ∈ tree.stmts, s.label = .selectStmt ∧ carriesInto s = false := by
  cases hsel : requireSelectOnly tree.stmts with
  | error e =>
    rw [checkQuery, hsel] at h
    cases h
  | ok u => exact requireSelectOnly_ok hsel

/-- **An accepted query is read-only exactly when the places the check does not look at are**: no CTE modifies
    data and no nested `SELECT` has an `INTO`. -/
theorem query_readOnly_iff (tree : ParseTree) (h : checkQuery tree = .ok ()) :
    ReadOnly tree ↔ CtesRead tree ∧ NestedPlain tree := by
  have htop := checkQuery_ok h
  constructor
  · -- both places are nodes of the tree
    intro hread
    have hnode : ∀ s ∈ tree.stmts, ∀ m ∈ s.nodes, ∀ x ∈ m.children,
        x.2.label.isModify = false ∧ carriesInto x.2 = false := by
      intro s hs m hm x hx
      exact hread x.2 (ParseTree.mem_root_nodes.mpr (.inr ⟨s, hs, .inr (Tree.child_mem_nodes hm hx)⟩))
    exact ⟨fun s hs m hm x hx _ => (hnode s hs m hm x hx).1, fun s hs m hm x hx => (hnode s hs m hm x hx).2⟩
  · rintro ⟨hctes, hnested⟩ n hn
    rcases ParseTree.mem_root_nodes.mp hn with rfl | ⟨s, hs, rfl | hn⟩
    · exact ⟨rfl, rfl⟩
    · exact ⟨rfl, rfl⟩
    obtain ⟨hsel, hinto⟩ := htop s hs
    constructor
    · -- a node that modifies data is the statement itself, a `SELECT`, or the query of a CTE
      by_contra hmod
      rw [Bool.not_eq_false] at hmod
      have hutil : s.label.isUtility = false := by
        rw [hsel]
        rfl
      rcases modify_is_cte (tree.placed s hs) hutil hn hmod with rfl | ⟨m, hm, hcte⟩
      · rw [hsel] at hmod
        cases hmod
      · rw [hctes s hs m hm _ hcte rfl] at hmod
        cases hmod
    · rcases Tree.eq_or_child hn with rfl | ⟨m, hm, f, hf⟩
      · exact hinto
      · exact hnested s hs m hm (f, n) hf

/-! ## Two trees -/

def table (name : String) : Node := .mk (.rangeVar "" name) []

/-- `WITH x AS (query) SELECT … FROM x`. -/
def selectWith (query : Node) : Node :=
  .mk .selectStmt [(.fromClause, table "x"),
    (.withClause, .mk .withClause [(.ctes, .mk (.commonTableExpr "x") [(.ctequery, query)])])]

/-- `WITH x AS (SELECT … FROM orders) SELECT … FROM x`. -/
def readTree : ParseTree where
  stmts := [selectWith (.mk .selectStmt [(.fromClause, table "orders")])]
  placed := by decide

/-- `WITH x AS (DELETE FROM orders RETURNING *) SELECT … FROM x`. -/
def deleteTree : ParseTree where
  stmts := [selectWith (.mk .deleteStmt [(.relation, table "orders"), (.returningList, .mk (.resTarget "") [])])]
  placed := by decide

theorem query_readOnly_iff_cte : checkQuery readTree = .ok () ∧ ReadOnly readTree := by
  have hcheck : checkQuery readTree = .ok () := by decide
  refine ⟨hcheck, (query_readOnly_iff readTree hcheck).mpr ⟨?_, ?_⟩⟩
  · unfold CtesRead
    decide
  · unfold NestedPlain
    decide

/-- **A query can delete**: the check accepts a `SELECT` whose CTE is a `DELETE`. -/
theorem query_accepts_delete : checkQuery deleteTree = .ok () ∧ ¬ ReadOnly deleteTree := by
  refine ⟨by decide, ?_⟩
  unfold ReadOnly
  decide

end GoErp.Db
