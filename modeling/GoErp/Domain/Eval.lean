import GoErp.Domain.Ast
import GoErp.Lib.Except
import GoErp.Lib.Number

/-!
# `Domain.Eval` — evaluating a condition in memory

`domain/eval.go`. `eval` returns one of the dynamic types of the source as a constructor of `Value`, with
`null` for `nil`; floats are finite and kept as the rationals they denote. `parseTime` stands for
`time.Parse(time.RFC3339Nano, _)`, an instant being its nanoseconds.
-/

namespace GoErp.Domain

open Lib Lib.Number

/-- What `eval` returns: `nil`, a `bool`, a `string`, an `int64`, a `float64` or a `time.Time`. -/
inductive Value where
  | null
  | bool (b : Bool)
  | string (s : String)
  | int (i : ℤ)
  | float (q : ℚ)
  | time (ns : ℤ)
  deriving DecidableEq

/-- `%T` of a value. -/
def Value.typeName : Value → String
  | .null => "<nil>"
  | .bool _ => "bool"
  | .string _ => "string"
  | .int _ => "int64"
  | .float _ => "float64"
  | .time _ => "time.Time"

/-- The dynamic types of a record's values that `normalize` tells apart. -/
inductive Raw where
  | null
  | bool (b : Bool)
  | string (s : String)
  | bytes (s : String)
  /-- a `[16]byte`, as the text of the uuid it is -/
  | uuid (text : String)
  /-- a signed integer of any width, or an unsigned one of at most 32 bits -/
  | int (i : ℤ)
  /-- a `uint` or `uint64` -/
  | uint (n : Nat)
  | float (q : ℚ)
  | time (ns : ℤ)
  /-- a `fmt.Stringer`; `none` is a nil pointer -/
  | stringer (s : Option String)
  | other (typeName : String)

/-- The evaluation errors, with the data their messages print. -/
inductive EvalError where
  /-- `domain: bare record has no value outside child_of/parent_of` -/
  | bareRecord
  /-- `domain: record has no field %q` -/
  | noField (field : String)
  /-- `domain: current_user.%s is not bound` -/
  | attrNotBound (attr : String)
  /-- `domain: tenant.%s is only bound in tenant-only contexts, not when evaluating a record` -/
  | tenantAttr (field : String)
  /-- `domain: user_has_permission('%s') has no permission resolver bound` -/
  | noResolver (perm : String)
  /-- `domain: %s is not supported when evaluating a record in memory` -/
  | treeUnsupported (op : TreeOp)
  /-- `domain: %s is search-domain only and is rejected when evaluating a record in memory` -/
  | searchOnly (op : BinOp)
  /-- `domain: invalid numeric literal %q: %w` -/
  | invalidNumber (text : String)
  /-- `domain: %T is not a boolean operand` -/
  | notBoolOperand (typeName : String)
  /-- `domain: expression evaluates to %T, not a boolean` -/
  | notBoolResult (typeName : String)
  /-- `domain: cannot compare %T with %T` -/
  | cannotCompare (left right : String)
  /-- `domain: %q is not an RFC 3339 timestamp` -/
  | notTimestamp (s : String)
  /-- `domain: record value of type %T has no comparable form` -/
  | notComparable (typeName : String)
  deriving DecidableEq, Repr

/-- What `Env` binds about the current user. -/
structure Caller where
  userID : String
  contactID : String
  tenantID : String
  roles : List String
  hasPermission : Option (String → Bool)

structure Env extends Caller where
  /-- column names to values; an absent key is an evaluation error -/
  record : String → Option Raw

def normalizeUnsigned (n : Nat) : Value :=
  if n > 2 ^ 63 - 1 then .float (float64OfInt n) else .int n

/-- The Go types that a column may have, brought down to those that are compared. -/
def normalize : Raw → Except EvalError Value
  | .null => .ok .null
  | .bool b => .ok (.bool b)
  | .string s => .ok (.string s)
  | .int i => .ok (.int i)
  | .float q => .ok (.float q)
  | .time ns => .ok (.time ns)
  | .bytes s => .ok (.string s)
  | .uuid text => .ok (.string text)
  | .uint n => .ok (normalizeUnsigned n)
  | .stringer none => .ok .null
  | .stringer (some s) => .ok (.string s)
  | .other typeName => .error (.notComparable typeName)

def literalValue : LitValue → Except EvalError Value
  | .null => .ok .null
  | .bool b => .ok (.bool b)
  | .string s => .ok (.string s)
  | .number text =>
    match parseInt64 text with
    | some i => .ok (.int i)
    | none =>
      match parseFloat64 text with
      | some q => .ok (.float q)
      | none => .error (.invalidNumber text)

/-- `cmp.Compare`. -/
def cmpCompare {α : Type} [LT α] [DecidableEq α] [DecidableRel (α := α) (· < ·)] (x y : α) : Ordering :=
  if x < y then .lt else if x = y then .eq else .gt

def compareBool (a b : Bool) : Ordering := if a = b then .eq else if b then .lt else .gt

section

variable (parseTime : String → Option ℤ)

/-- A string against a time is read as a timestamp. -/
def compare (a b : Value) : Except EvalError Ordering :=
  match a, b with
  | .bool x, .bool y => .ok (compareBool x y)
  | .string x, .string y => .ok (cmpCompare x y)
  | .string x, .time y =>
    match parseTime x with
    | some t => .ok (cmpCompare t y)
    | none => .error (.notTimestamp x)
  | .int x, .int y => .ok (cmpCompare x y)
  | .int x, .float y => .ok (cmpCompare (float64OfInt x) y)
  | .float x, .int y => .ok (cmpCompare x (float64OfInt y))
  | .float x, .float y => .ok (cmpCompare x y)
  | .time x, .time y => .ok (cmpCompare x y)
  | .time x, .string y =>
    match parseTime y with
    | some t => .ok (cmpCompare x t)
    | none => .error (.notTimestamp y)
  | _, _ => .error (.cannotCompare a.typeName b.typeName)

/-- An operand of a logical operator; NULL is unknown. -/
def asBool : Value → Except EvalError (Option Bool)
  | .null => .ok none
  | .bool b => .ok (some b)
  | v => .error (.notBoolOperand v.typeName)

/-- The verdict of a comparison operator on the order of its operands. -/
def BinOp.verdict : BinOp → Ordering → Bool
  | .eq, o => o == .eq
  | .ne, o => o != .eq
  | .lt, o => o == .lt
  | .gt, o => o == .gt
  | .le, o => o != .gt
  | .ge, o => o != .lt
  | _, _ => false

/-- The operand value that settles `AND` or `OR`. -/
def decisive (op : BinOp) : Bool := op == .or

/-- `evalLogical` on its evaluated operands. -/
def logical (op : BinOp) (left right : Option Bool) : Value :=
  if left = some (decisive op) ∨ right = some (decisive op) then .bool (decisive op)
  else if left = none ∨ right = none then .null
  else .bool (!decisive op)

/-- The value of a user attribute: an empty text is `NULL`. -/
def orNull (s : String) : Value := if s = "" then .null else .string s

mutual

def eval (env : Env) : Expr → Except EvalError Value
  | .recordField field =>
    if field = "" then .error .bareRecord
    else match env.record field with
      | none => .error (.noField field)
      | some raw => normalize raw
  | .userAttr attr =>
    match attr with
    | "id" => .ok (orNull env.userID)
    | "contact_id" => .ok (orNull env.contactID)
    | "tenant_id" => .ok (orNull env.tenantID)
    | _ => .error (.attrNotBound attr)
  | .tenantAttr field => .error (.tenantAttr field)
  | .roleCheck role => .ok (.bool (env.roles.contains role))
  | .permCheck perm =>
    match env.hasPermission with
    | none => .error (.noResolver perm)
    | some has => .ok (.bool (has perm))
  | .literal value => literalValue value
  | .not operand => do
    match ← asBool (← eval env operand) with
    | none => .ok .null
    | some b => .ok (.bool (!b))
  | .isNull operand not => do
    let v ← eval env operand
    .ok (.bool (decide (v = .null) != not))
  | .inList operand values => do
    let v ← eval env operand
    evalIn env v (decide (v = .null)) false values
  | .binary op left right =>
    match op with
    | .like => .error (.searchOnly .like)
    | .ilike => .error (.searchOnly .ilike)
    -- `AND` and `OR` evaluate both sides, so an error on either is never hidden.
    | .and => do
      let l ← asBool (← eval env left)
      let r ← asBool (← eval env right)
      .ok (logical .and l r)
    | .or => do
      let l ← asBool (← eval env left)
      let r ← asBool (← eval env right)
      .ok (logical .or l r)
    | op => do
      let l ← eval env left
      let r ← eval env right
      if l = .null ∨ r = .null then .ok .null
      else do
        let order ← compare parseTime l r
        .ok (.bool (op.verdict order))
  | .tree op _ => .error (.treeUnsupported op)

/-- The loop of `evalIn` over the members, `operand` being evaluated. -/
def evalIn (env : Env) (operand : Value) (sawNull matched : Bool) : List Expr → Except EvalError Value
  | [] => .ok (if matched then .bool true else if sawNull then .null else .bool false)
  | ve :: ves => do
    let v ← eval env ve
    if operand = .null ∨ v = .null then evalIn env operand true matched ves
    else do
      let order ← compare parseTime operand v
      evalIn env operand sawNull (matched || order == .eq) ves

end

/-- `Eval`: an unknown result is not true, and a result that is no boolean is an error. -/
def Eval (expr : Expr) (env : Env) : Except EvalError Bool := do
  match ← eval parseTime env expr with
  | .null => .ok false
  | .bool b => .ok b
  | v => .error (.notBoolResult v.typeName)

end

end GoErp.Domain
