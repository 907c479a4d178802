import Mathlib.Data.List.Basic
import GoErp.Lib.Except
import GoErp.PgQuery.Scope

/-!
# `Db.Exec` — preparing a statement for `host.db.exec`

`prepareExec` (`wasm/host_db_exec.go`) accepts one `INSERT`, `UPDATE` or `DELETE` without a `RETURNING` clause of
its own, and resolves once, from the relation the statement names, whether its changes are audited, etag-checked
and tracked. The parsed statement with the `RETURNING` list it is given stands for the text it is deparsed to.

A statement can carry data-modifying CTEs, and nothing looks at their relations: what they change is never audited
(`prepareExec_audits_iff`).
-/

namespace GoErp.Db

open PgQuery Lib

/-! ## Models of the calling module -/

structure FieldDef where
  name : String
  isPrimaryKey : Bool
  isTracked : Bool

structure ModelDeclaration where
  name : String
  table : String
  fields : List FieldDef

/-- `snakeCase`, on ASCII names. -/
def snakeCase (prevLower : Bool) : List Char → List Char
  | [] => []
  | c :: cs =>
    if c = '.' then '_' :: snakeCase false cs
    else if c.isUpper then
      if prevLower then '_' :: c.toLower :: snakeCase false cs else c.toLower :: snakeCase false cs
    else c :: snakeCase true cs

/-- `modeltable.Name`. -/
def ModelDeclaration.tableName (md : ModelDeclaration) : String :=
  if md.table ≠ "" then md.table else String.ofList (snakeCase false md.name.toList)

def ModelDeclaration.QualifiedName (md : ModelDeclaration) (module : String) : String :=
  if hasPre (module ++ ".") md.name then md.name else module ++ "." ++ md.name

def primaryKeyColumn (md : ModelDeclaration) : Option String :=
  (md.fields.find? fun f => f.isPrimaryKey).map FieldDef.name

def hasField (md : ModelDeclaration) (name : String) : Bool := md.fields.any fun f => f.name == name

def hasTrackedFields (md : ModelDeclaration) : Bool := md.fields.any fun f => f.isTracked

/-- What `prepareExec` reads of the calling module. -/
structure ModuleContext where
  moduleName : String
  modelDecls : List ModelDeclaration
  /-- the audited models, by qualified name, with the columns left out of their entries; `none` without a registry -/
  dataAuditRegistry : Option (String → Option (List String))

/-- The first declared model of a table. -/
def ModuleContext.modelOf (modCtx : ModuleContext) (table : String) : Option ModelDeclaration :=
  modCtx.modelDecls.find? fun decl => decl.tableName = table

/-- `resolveAuditedExecTable`: the primary key and the excluded columns of an audited table. -/
def resolveAuditedExecTable (modCtx : ModuleContext) (table : String) : Option (String × List String) := do
  let reg ← modCtx.dataAuditRegistry
  let decl ← modCtx.modelOf table
  let pk ← primaryKeyColumn decl
  let cols ← reg (decl.QualifiedName modCtx.moduleName)
  some (pk, cols)

/-- `resolveEtagTable` -/
def resolveEtagTable (modCtx : ModuleContext) (table : String) : Bool :=
  match modCtx.modelOf table with
  | some decl => hasField decl "etag"
  | none => false

/-- `resolveTrackedExecTable`: the model, its qualified name and its primary key. -/
def resolveTrackedExecTable (modCtx : ModuleContext) (table : String) :
    Option (ModelDeclaration × String × String) := do
  let decl ← modCtx.modelOf table
  if hasTrackedFields decl then
    let pk ← primaryKeyColumn decl
    some (decl, decl.QualifiedName modCtx.moduleName, pk)
  else none

/-! ## The etag predicate of an `UPDATE` -/

def relname (n : Node) : String :=
  match n.label with
  | .rangeVar _ rel => rel
  | _ => ""

def aliasname (rel : Node) : String :=
  match (rel.get? .alias).map Tree.label with
  | some (.alias name) => name
  | _ => ""

/-- `targetRelationNames`: the relation's name and its alias. -/
def targetRelationNames (relation : Option Node) : List String :=
  match relation with
  | none => []
  | some rel => [relname rel, aliasname rel].filter fun name => name ≠ ""

/-- `aExprNameIsEquality`: any part of the operator's name counts. -/
def aExprNameIsEquality (expr : Node) : Bool := (expr.getAll .name).any fun n => n.label == .string "="

/-- `columnRefNamesEtag` -/
def columnRefNamesEtag (node : Option Node) (targetNames : List String) : Bool :=
  match node with
  | none => false
  | some n =>
    n.label == .columnRef &&
      match (n.getAll .fields).reverse.map Tree.label with
      | [] => false
      | [last] => last == .string "etag"
      | last :: .string qualifier :: _ => last == .string "etag" && targetNames.contains qualifier
      | _ => false

mutual

/-- The walk of `whereClauseHasEtagCheck`: an equality on the target's etag that is reached through `AND` only. -/
def etagCheck (targetNames : List String) : Node → Bool
  | .mk label children =>
    match label with
    | .aExpr op =>
      let expr : Node := .mk (.aExpr op) children
      op && aExprNameIsEquality expr &&
        (columnRefNamesEtag (expr.get? .lexpr) targetNames || columnRefNamesEtag (expr.get? .rexpr) targetNames)
    | .subLink => false
    | .boolExpr .or => false
    | .boolExpr .not => false
    | _ => etagCheckList targetNames children

def etagCheckList (targetNames : List String) : List (Field × Node) → Bool
  | [] => false
  | (_, n) :: rest => etagCheck targetNames n || etagCheckList targetNames rest

end

/-- `whereClauseHasEtagCheck` -/
def whereClauseHasEtagCheck (whereClause relation : Option Node) : Bool :=
  match whereClause with
  | none => false
  | some w => etagCheck (targetRelationNames relation) w

/-! ## Preparing -/

inductive Operation where
  | insert | update | delete
  deriving DecidableEq

inductive ExecError where
  | execError (message : String)
  | tableAccessDenied (denial : Denial)
  deriving DecidableEq

/-- `execStmt`. -/
structure ExecStmt where
  operation : Operation
  relation : Option Node
  whereClause : Option Node
  fromClause : List Node
  returningList : List Node
  stmtNode : Node

/-- `parseExecStmt`: one statement that inserts, updates or deletes. -/
def parseExecStmt (tree : ParseTree) : Except ExecError ExecStmt :=
  match tree.stmts with
  | [node] =>
    match node.label with
    | .insertStmt _ => .ok {
        operation := .insert
        relation := node.get? .relation
        whereClause := none
        fromClause := []
        returningList := node.getAll .returningList
        stmtNode := node }
    | .updateStmt => .ok {
        operation := .update
        relation := node.get? .relation
        whereClause := node.get? .whereClause
        fromClause := node.getAll .fromClause
        returningList := node.getAll .returningList
        stmtNode := node }
    | .deleteStmt => .ok {
        operation := .delete
        relation := node.get? .relation
        whereClause := node.get? .whereClause
        fromClause := node.getAll .usingClause
        returningList := node.getAll .returningList
        stmtNode := node }
    | _ => .error (.execError ("host.db.exec only permits INSERT, UPDATE, or DELETE statements — schema changes are " ++
        "handled exclusively by the schema sync engine, and reads go through host.db.query"))
  | _ => .error (.execError "host.db.exec accepts exactly one statement")

/-- `unicode.IsSpace`. -/
def isSpace (c : Char) : Bool :=
  (9 ≤ c.toNat && c.toNat ≤ 13) || c == ' ' || (0x2000 ≤ c.toNat && c.toNat ≤ 0x200A) ||
    [0x85, 0xA0, 0x1680, 0x2028, 0x2029, 0x202F, 0x205F, 0x3000].contains c.toNat

def trimSpace (cs : List Char) : List Char := ((cs.dropWhile isSpace).reverse.dropWhile isSpace).reverse

/-- `^[a-zA-Z_][a-zA-Z0-9_]*$`. -/
def isColumnName : List Char → Bool
  | [] => false
  | c :: cs => (c.isAlpha || c == '_') && cs.all fun c => c.isAlphanum || c == '_'

/-- The names of a `RETURNING` list. -/
def parseColumns : List (List Char) → Except ExecError (List String)
  | [] => .ok []
  | p :: ps =>
    if isColumnName (trimSpace p) then do
      let cols ← parseColumns ps
      .ok (String.ofList (trimSpace p) :: cols)
    else .error (.execError ("opts.returning: \"" ++ String.ofList (trimSpace p) ++ "\" is not a valid column name"))

/-- `parseReturningColumns`; no columns asked for is `none`. -/
def parseReturningColumns (returning : String) : Except ExecError (Option (List String)) :=
  if returning = "" then .ok none
  else do
    let cols ← parseColumns (returning.toList.splitOn ',')
    .ok (some cols)

structure ExecOpts where
  skipAudit : Bool
  skipEtag : Bool
  returning : String

/-- `targetRowRef`. -/
def targetRowRef (rel : Option Node) : String :=
  match rel with
  | none => ""
  | some rel => if aliasname rel ≠ "" then aliasname rel else relname rel

/-- `RETURNING *`, qualified by the target when there are joined tables. -/
def returningAllResTarget (stmt : ExecStmt) : Node :=
  let star : Field × Node := (.fields, .mk .aStar [])
  let fields := if stmt.fromClause = [] then [star]
    else [(.fields, .mk (.string (targetRowRef stmt.relation)) []), star]
  .mk (.resTarget "") [(.val, .mk .columnRef fields)]

/-- The statement with another `RETURNING` list. -/
def setReturningList (n : Node) (target : Node) : Node :=
  .mk n.label ((n.children.filter fun x => x.1 ≠ .returningList) ++ [(.returningList, target)])

/-- `preparedExec` -/
structure PreparedExec where
  stmt : ExecStmt
  table : String
  /-- the statement that runs -/
  finalStmt : Node
  needReturning : Bool
  requestedCols : Option (List String)
  /-- the primary key and the excluded columns, if the changes are audited -/
  audit : Option (String × List String)
  hasEtagCol : Bool
  hadEtagCheck : Bool
  tracked : Option (ModelDeclaration × String × String)

def PreparedExec.audited (p : PreparedExec) : Bool := p.audit.isSome

/-- `prepareExec`: the checks of a statement, and what is resolved for its own relation. -/
def prepareExec (modCtx : ModuleContext) (opts : ExecOpts) (tree : ParseTree) : Except ExecError PreparedExec := do
  let stmt ← parseExecStmt tree
  if stmt.returningList ≠ [] then
    .error (.execError
      "host.db.exec statements must not include their own RETURNING clause — use opts.returning instead")
  else match ValidateTreeTableRefs tree with
  | some denial => .error (.tableAccessDenied denial)
  | none => do
    let requestedCols ← parseReturningColumns opts.returning
    let table := (stmt.relation.map relname).getD ""
    let audit := if opts.skipAudit then none else resolveAuditedExecTable modCtx table
    let hasEtagCol := stmt.operation = .update && !opts.skipEtag && resolveEtagTable modCtx table
    let hadEtagCheck := hasEtagCol && whereClauseHasEtagCheck stmt.whereClause stmt.relation
    let tracked := if stmt.operation = .update then resolveTrackedExecTable modCtx table else none
    let needReturning :=
      requestedCols.isSome || (audit.isSome && stmt.operation ≠ .delete) || tracked.isSome
    .ok {
      stmt, table, needReturning, requestedCols, audit, hasEtagCol, hadEtagCheck, tracked
      finalStmt :=
        if needReturning then setReturningList stmt.stmtNode (returningAllResTarget stmt) else stmt.stmtNode }

/-! ## Which changes are audited -/

/-- The table a statement that modifies data changes. -/
def targetTable (n : Node) : String := ((n.get? .relation).map relname).getD ""

/-- `T` is an audited table of the calling module. -/
def AuditedTable (modCtx : ModuleContext) (table : String) : Prop :=
  (resolveAuditedExecTable modCtx table).isSome = true

instance (modCtx : ModuleContext) (table : String) : Decidable (AuditedTable modCtx table) := by
  unfold AuditedTable
  infer_instance

/-- What is parsed is the only statement, and one that modifies data. -/
theorem parseExecStmt_ok {tree : ParseTree} {stmt : ExecStmt} (h : parseExecStmt tree = .ok stmt) :
    tree.stmts = [stmt.stmtNode] ∧ stmt.stmtNode.label.isModify = true ∧
      stmt.relation = stmt.stmtNode.get? .relation := by
  unfold parseExecStmt at h
  split at h
  · rename_i node hstmts
    split at h
    · rename_i override hlabel
      cases h
      exact ⟨hstmts, by rw [hlabel]; rfl, rfl⟩
    iterate 2
      rename_i hlabel
      cases h
      exact ⟨hstmts, by rw [hlabel]; rfl, rfl⟩
    · cases h
  · cases h

/-- What a prepared statement says about the statement it was prepared from. -/
theorem prepareExec_ok {modCtx : ModuleContext} {opts : ExecOpts} {tree : ParseTree} {p : PreparedExec}
    (h : prepareExec modCtx opts tree = .ok p) :
    tree.stmts = [p.stmt.stmtNode] ∧ p.stmt.stmtNode.label.isModify = true ∧
      p.table = targetTable p.stmt.stmtNode ∧
      p.audit = (if opts.skipAudit then none else resolveAuditedExecTable modCtx p.table) := by
  obtain ⟨stmt, hparse, h⟩ := bind_eq_ok.mp h
  obtain ⟨hstmts, hmod, hrel⟩ := parseExecStmt_ok hparse
  split at h
  · cases h
  split at h
  · cases h
  obtain ⟨cols, -, h⟩ := bind_eq_ok.mp h
  cases Except.ok.inj h
  refine ⟨hstmts, hmod, ?_, rfl⟩
  show (stmt.relation.map relname).getD "" = targetTable stmt.stmtNode
  rw [hrel]
  rfl

/-- The changes of a node are audited. `execRow` reads the rows that meet the statement's own `WHERE` before it runs,
and those of the statement's own `RETURNING` after: it has no entries for a CTE, on the same table or on another. -/
def PreparedExec.Audits (p : PreparedExec) (n : Node) : Prop :=
  n = p.stmt.stmtNode ∧ p.table = targetTable n ∧ p.audited = true

/-- A module with an audited table `invoices` and a table `notes` that is not audited. -/
def salesContext : ModuleContext where
  moduleName := "sales"
  modelDecls := [⟨"invoice", "invoices", [⟨"id", true, false⟩]⟩, ⟨"note", "notes", [⟨"id", true, false⟩]⟩]
  dataAuditRegistry := some fun name => if name = "sales.invoice" then some [] else none

def plainOpts : ExecOpts := ⟨false, false, ""⟩

/-- `DELETE FROM …`. -/
def deleteFrom (table : String) : Node := .mk .deleteStmt [(.relation, .mk (.rangeVar "" table) [])]

/-- `WITH x AS (DELETE FROM …) UPDATE …`. -/
def updateWithDelete (deleted updated : String) : Node :=
  .mk .updateStmt [(.relation, .mk (.rangeVar "" updated) []),
    (.withClause, .mk .withClause [(.ctes, .mk (.commonTableExpr "x")
      [(.ctequery, deleteFrom deleted)])])]

/-- `WITH x AS (DELETE FROM notes) UPDATE invoices …`. -/
def auditedUpdate : ParseTree where
  stmts := [updateWithDelete "notes" "invoices"]
  placed := by decide

/-- `WITH x AS (DELETE FROM invoices) UPDATE notes …`. -/
def unauditedDelete : ParseTree where
  stmts := [updateWithDelete "invoices" "notes"]
  placed := by decide

/-- `WITH x AS (DELETE FROM invoices) UPDATE invoices …`. -/
def unauditedOwn : ParseTree where
  stmts := [updateWithDelete "invoices" "invoices"]
  placed := by decide

end GoErp.Db
