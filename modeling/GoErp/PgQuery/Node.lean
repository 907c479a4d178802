import GoErp.Lib.Tree

/-!
# `PgQuery.Node` — parse trees

The parse tree of `pg_query` as a tree of protobuf messages. A message is its type with the scalar fields that the
engine reads; its message fields are the edges, in order, a repeated field as several edges of one name. The `Node`
wrappers are left out, and types and fields the engine never names are `other`.

`ParseTree` carries what Postgres's grammar guarantees: a statement that modifies data is a statement of its own or
the query of a CTE.
-/

namespace GoErp.PgQuery

open Lib

inductive BoolOp where
  | and | or | not
  deriving DecidableEq

/-- `InsertStmt.override`. -/
inductive Overriding where
  | default | userValue | systemValue
  deriving DecidableEq

/-- A message type with its scalar fields. -/
inductive Msg where
  | parseResult
  | rawStmt
  | selectStmt
  | insertStmt (override : Overriding)
  | updateStmt
  | deleteStmt
  | mergeStmt
  /-- any other statement -/
  | utilityStmt (name : String)
  | withClause
  | commonTableExpr (ctename : String)
  | intoClause
  | list
  | rangeVar (schemaname relname : String)
  | alias (aliasname : String)
  | resTarget (name : String)
  | columnRef
  | aStar
  | paramRef (number : Int)
  | string (sval : String)
  /-- `AEXPR_OP`, or one of the other kinds -/
  | aExpr (op : Bool)
  | boolExpr (boolop : BoolOp)
  | subLink
  | funcCall
  | other (name : String)
  deriving DecidableEq

inductive Field where
  | stmts | stmt
  | withClause | ctes | ctequery
  | larg | rarg | intoClause | valuesLists | sortClause | limitCount | limitOffset | lockingClause
  | relation | cols | selectStmt | onConflictClause | returningList
  | whereClause | fromClause | usingClause | targetList
  | items | indirection | alias | val
  | name | lexpr | rexpr | fields | funcname | args
  | other (name : String)
  deriving DecidableEq

abbrev Node := Tree Msg Field

/-- A statement that changes rows. -/
def Msg.isModify : Msg → Bool
  | .insertStmt _ => true
  | .updateStmt => true
  | .deleteStmt => true
  | .mergeStmt => true
  | _ => false

def Msg.isUtility : Msg → Bool
  | .utilityStmt _ => true
  | _ => false

def Msg.isCte : Msg → Bool
  | .commonTableExpr _ => true
  | _ => false

/-- What the grammar says of a message under a field of another, inside a statement. -/
def Placed (parent : Msg) (f : Field) (child : Msg) : Prop :=
  (child.isModify = true → (parent.isCte = true ∧ f = .ctequery) ∨ parent.isUtility = true) ∧
  (child.isUtility = true → parent.isUtility = true)

instance (parent : Msg) (f : Field) (child : Msg) : Decidable (Placed parent f child) := by
  unfold Placed
  infer_instance

/-- The result of parsing some SQL text: its statements. -/
structure ParseTree where
  stmts : List Node
  placed : ∀ s ∈ stmts, ∀ n ∈ s.nodes, ∀ x ∈ n.children, Placed n.label x.1 x.2.label

/-- `RawStmt`. -/
def rawStmt (s : Node) : Node := .mk .rawStmt [(.stmt, s)]

/-- The tree as one message. -/
def ParseTree.root (t : ParseTree) : Node := .mk .parseResult (t.stmts.map fun s => (.stmts, rawStmt s))

/-- A `SELECT … INTO`. -/
def carriesInto (n : Node) : Bool := n.label == .selectStmt && (n.get? .intoClause).isSome

/-- Inside a statement that is not a utility statement, what modifies data is the query of a CTE. -/
theorem modify_is_cte {s : Node} (hplaced : ∀ n ∈ s.nodes, ∀ x ∈ n.children, Placed n.label x.1 x.2.label)
    (hs : s.label.isUtility = false) {n : Node} (hn : n ∈ s.nodes) (hmod : n.label.isModify = true) :
    n = s ∨ ∃ m ∈ s.nodes, (.ctequery, n) ∈ m.children := by
  -- no node is a utility statement: below the root they only occur inside one another
  have hutil : ∀ m ∈ s.nodes, m.label.isUtility = false := by
    refine Tree.nodes_induct hs fun m hm hmu x hx => ?_
    by_contra hx'
    rw [Bool.not_eq_false] at hx'
    rw [(hplaced m hm x hx).2 hx'] at hmu
    cases hmu
  rcases Tree.eq_or_child hn with heq | ⟨m, hm, f, hf⟩
  · exact .inl heq
  rcases (hplaced m hm (f, n) hf).1 hmod with ⟨-, hfield⟩ | hm'
  · exact .inr ⟨m, hm, by rw [← show f = .ctequery from hfield]; exact hf⟩
  · rw [hutil m hm] at hm'
    cases hm'

/-- The nodes of the whole tree: the two wrappers and the nodes of the statements. -/
theorem ParseTree.mem_root_nodes {t : ParseTree} {n : Node} :
    n ∈ t.root.nodes ↔ n = t.root ∨ ∃ s ∈ t.stmts, n = rawStmt s ∨ n ∈ s.nodes := by
  unfold ParseTree.root
  rw [Tree.mem_nodes_mk]
  refine or_congr_right ?_
  simp [rawStmt, Tree.mem_nodes_mk]

end GoErp.PgQuery
