import Mathlib.Data.List.Basic

/-!
# `Domain.Ast` — the domain expression tree

The AST shared by ABAC policy conditions and `host.orm.search` domains (`domain/ast.go`). A Go string
is a sequence of bytes; here byte `b` is the character with code `b`, so every byte string is a `String`.

`Op` and the literal's dynamic type are enumerations in the source's own comments, so both are inductive
types. `UnaryExpr.Op` has one value (`"NOT"`) and is left out of `Expr.not`.
-/

namespace GoErp.Domain

/-- The ten values of `BinaryExpr.Op`. -/
inductive BinOp where
  | eq | ne | lt | gt | le | ge | like | ilike | and | or
  deriving DecidableEq, Repr

/-- The operator's spelling, as `BinaryExpr.Op` stores it and the compilers print it. -/
def BinOp.text : BinOp → String
  | .eq => "="
  | .ne => "!="
  | .lt => "<"
  | .gt => ">"
  | .le => "<="
  | .ge => ">="
  | .like => "LIKE"
  | .ilike => "ILIKE"
  | .and => "AND"
  | .or => "OR"

/-- `TreeExpr.Op`. -/
inductive TreeOp where
  | childOf | parentOf
  deriving DecidableEq, Repr

/-- `Literal.Value`: `nil`, a `bool`, a quoted `string`, or a `Number` kept as its source text. -/
inductive LitValue where
  | null
  | bool (b : Bool)
  | string (s : String)
  | number (text : String)
  deriving DecidableEq, Repr

/-- A parsed domain expression. -/
inductive Expr where
  | recordField (field : String)
  | userAttr (attr : String)
  | tenantAttr (field : String)
  | roleCheck (role : String)
  | permCheck (perm : String)
  | literal (value : LitValue)
  | binary (op : BinOp) (left right : Expr)
  | not (operand : Expr)
  | isNull (operand : Expr) (not : Bool)
  | inList (operand : Expr) (values : List Expr)
  | tree (op : TreeOp) (target : Expr)
  deriving Repr

@[induction_eliminator]
theorem Expr.induct {P : Expr → Prop} (recordField : ∀ field, P (.recordField field))
    (userAttr : ∀ attr, P (.userAttr attr)) (tenantAttr : ∀ field, P (.tenantAttr field))
    (roleCheck : ∀ role, P (.roleCheck role)) (permCheck : ∀ perm, P (.permCheck perm))
    (literal : ∀ value, P (.literal value)) (binary : ∀ op left right, P left → P right → P (.binary op left right))
    (not : ∀ operand, P operand → P (.not operand)) (isNull : ∀ operand n, P operand → P (.isNull operand n))
    (inList : ∀ operand values, P operand → (∀ v ∈ values, P v) → P (.inList operand values))
    (tree : ∀ op target, P target → P (.tree op target)) : ∀ e, P e := by
  intro e
  refine @Expr.rec P (fun vs => ∀ v ∈ vs, P v)
    recordField userAttr tenantAttr roleCheck permCheck literal binary not
    (fun operand n => isNull operand n) (fun operand values => inList operand values) tree ?_ ?_ e
  · intro v hv
    exact absurd hv (by simp)
  intro head tail hhead htail v hv
  rcases List.mem_cons.mp hv with hv' | hv'
  · exact hv' ▸ hhead
  · exact htail v hv'

/-! ## Decidable equality -/

mutual

/-- Structural comparison. -/
def Expr.beq : Expr → Expr → Bool
  | .recordField a, .recordField b => a == b
  | .userAttr a, .userAttr b => a == b
  | .tenantAttr a, .tenantAttr b => a == b
  | .roleCheck a, .roleCheck b => a == b
  | .permCheck a, .permCheck b => a == b
  | .literal a, .literal b => a == b
  | .binary op l r, .binary op' l' r' => op == op' && l.beq l' && r.beq r'
  | .not a, .not b => a.beq b
  | .isNull a n, .isNull b n' => a.beq b && n == n'
  | .inList a vs, .inList b ws => a.beq b && Expr.beqList vs ws
  | .tree op a, .tree op' b => op == op' && a.beq b
  | _, _ => false

def Expr.beqList : List Expr → List Expr → Bool
  | [], [] => true
  | a :: as, b :: bs => a.beq b && Expr.beqList as bs
  | _, _ => false

end

theorem Expr.beqList_iff {as : List Expr} (h : ∀ a ∈ as, ∀ b, a.beq b = true ↔ a = b) :
    ∀ bs, Expr.beqList as bs = true ↔ as = bs := by
  induction as with
  | nil => intro bs; cases bs <;> simp [beqList]
  | cons a as ih =>
    intro bs
    cases bs with
    | nil => simp [beqList]
    | cons b bs =>
      have ha := h a (by simp) b
      have has := ih (fun x hx => h x (by simp [hx])) bs
      simp [beqList, ha, has]

theorem Expr.beq_iff (a : Expr) : ∀ b, a.beq b = true ↔ a = b := by
  induction a with
  | binary op l r ihl ihr => intro b; cases b <;> simp [beq, ihl, ihr, and_assoc]
  | not a ih => intro b; cases b <;> simp [beq, ih]
  | isNull a n ih => intro b; cases b <;> simp [beq, ih]
  | inList a vs ih ihs => intro b; cases b <;> simp [beq, ih, beqList_iff ihs]
  | tree op a ih => intro b; cases b <;> simp [beq, ih]
  | _ => intro b; cases b <;> simp [beq]

instance : DecidableEq Expr := fun a b => decidable_of_iff (a.beq b = true) (a.beq_iff b)

end GoErp.Domain
