import Mathlib.Data.List.Forall2
import GoErp.Domain.EvalSim

/-!
# `Domain.CompileSql` — conditions as a parameterised filter

The part of `domain/compile_sql.go` that `CompileToFilter` runs. The compiler's `args` are threaded through;
placeholder `$n` counts the arguments of the fragments before this one, so several fragments share one parameter list.

`compileFilter_spec` says all a caller needs: the arguments only grow, the text is one SQL operand, and under any
binding that extends the arguments its value is the condition's, if every integer literal is a number `float64` can
hold.
-/

namespace GoErp.Domain

open Lib Lib.Number List

/-- A bound argument. -/
inductive Arg where
  | text (s : String)
  | float (q : ℚ)
  deriving DecidableEq

def Arg.val : Arg → Sql.Val
  | .text s => .text s
  | .float q => .num q

def sqlBool (v : Bool) : String := if v then "TRUE" else "FALSE"

section

variable (caller : Caller) (paramsBefore : Nat)

/-- The next placeholder, after those of the caller's own statement. -/
def bindArg (v : Arg) (args : List Arg) : String × List Arg :=
  ("$" ++ toString (paramsBefore + (args ++ [v]).length), args ++ [v])

def compileSqlLiteral (value : LitValue) (args : List Arg) : Except CompileError (String × List Arg) :=
  match value with
  | .null => .ok ("NULL", args)
  | .bool true => .ok ("true", args)
  | .bool false => .ok ("false", args)
  | .number text =>
    match parseFloat64 text with
    | some f => .ok (bindArg paramsBefore (.float f) args)
    | none => .error (.invalidNumber text)
  | .string s => .ok (bindArg paramsBefore (.text s) args)

/-- An attribute of the user; an empty one is `NULL`. -/
def bindAttr (value : String) (args : List Arg) : String × List Arg :=
  if value = "" then ("NULL", args) else bindArg paramsBefore (.text value) args

mutual

/-- The SQL of an expression and the arguments that its placeholders refer to, in order. -/
def compileFilter : Expr → List Arg → Except CompileError (String × List Arg)
  | .recordField field, args =>
    if field = "" then .error .bareRecord else .ok (quoteColumn field, args)
  | .userAttr attr, args =>
    match attr with
    | "id" => .ok (bindAttr paramsBefore caller.userID args)
    | "contact_id" => .ok (bindAttr paramsBefore caller.contactID args)
    | "tenant_id" => .ok (bindAttr paramsBefore caller.tenantID args)
    | _ => .error (.attrNotBound attr)
  | .tenantAttr field, _ => .error (.tenantAttr field)
  | .roleCheck role, args => .ok (sqlBool (caller.roles.contains role), args)
  | .permCheck perm, args =>
    match caller.hasPermission with
    | none => .error (.noResolver perm)
    | some has => .ok (sqlBool (has perm), args)
  | .literal value, args => compileSqlLiteral paramsBefore value args
  | .not operand, args => do
    let (x, args) ← compileFilter operand args
    .ok ("(" ++ ("NOT " ++ x) ++ ")", args)
  | .isNull operand not, args => do
    let (x, args) ← compileFilter operand args
    .ok ("(" ++ (x ++ (if not then " IS NOT NULL" else " IS NULL")) ++ ")", args)
  | .inList operand values, args => do
    let (x, args) ← compileFilter operand args
    let (vs, args) ← compileFilterList values args
    .ok ("(" ++ (x ++ " IN (" ++ (", ".intercalate vs ++ ")")) ++ ")", args)
  | .binary op left right, args =>
    match op with
    | .like => .error (.searchOnly .like)
    | .ilike => .error (.searchOnly .ilike)
    | op => do
      let (l, args) ← compileFilter left args
      let (r, args) ← compileFilter right args
      .ok ("(" ++ (l ++ (" " ++ op.text ++ " ") ++ r) ++ ")", args)
  | .tree op _, _ => .error (.treeUnsupported op)

/-- The loop over the members of an `IN` list. -/
def compileFilterList : List Expr → List Arg → Except CompileError (List String × List Arg)
  | [], args => .ok ([], args)
  | v :: vs, args => do
    let (x, args) ← compileFilter v args
    let (xs, args) ← compileFilterList vs args
    .ok (x :: xs, args)

end

def CompileToFilter (expr : Expr) : Except CompileError (String × List Arg) :=
  compileFilter caller paramsBefore expr []

end

/-! ## Values on both sides -/

/-- The SQL value of a value in memory. A filter binds floats as floats, so nothing is rounded here. -/
def Value.sql : Value → Option Sql.Val
  | .null => some .null
  | .bool b => some (.bool b)
  | .string s => some (.text s)
  | .int i => some (.num i)
  | .float q => some (.num q)
  | .time _ => none

def Same (v : Value) (w : Sql.Val) : Prop := v.sql = some w

theorem same_valRel : ValRel Same where
  null_iff {v w} h := by
    cases v <;> cases h <;> simp
  ofTruth t := by cases t <;> rfl
  asBool {v w t} h ht := by
    cases v <;> cases h <;> cases ht <;> rfl

/-- Comparable values have one verdict on both sides. -/
theorem compare_same {parseTime : String → Option ℤ} (env : Sql.Env) {op : BinOp} {c : Sql.CmpOp}
    (hop : op.cmp? = some c) {x y : Value} {a b : Sql.Val} {o : Ordering} (hx : Same x a) (hy : Same y b)
    (hscope : Comparable op x y) (hcmp : compare parseTime x y = .ok o) :
    env.compare c a b = some (some (op.verdict o)) := by
  have halike {v : Value} {w : Sql.Val} (h : Same v w) : Alike v w := by cases v <;> cases h <;> constructor
  refine compare_alike env hop (halike hx) (halike hy) hscope ?_ hcmp
  rintro f g p q rfl rfl rfl rfl
  cases hx
  cases hy
  exact Iff.rfl

/-! ## What a fragment means -/

/-- The parameters hold the arguments, numbered after `before` others. -/
def Binds (senv : Sql.Env) (before : Nat) (args : List Arg) : Prop :=
  ∀ i a, args[i]? = some a → senv.param (before + i + 1) = some a.val

theorem Binds.left {senv : Sql.Env} {before : Nat} {args new : List Arg}
    (h : Binds senv before (args ++ new)) : Binds senv before args := by
  intro i a hi
  refine h i a ?_
  rw [getElem?_append_left (List.getElem?_eq_some_iff.mp hi).1]
  exact hi

/-- The columns hold a plain record. -/
def Holds (senv : Sql.Env) (record : String → Option Raw) : Prop :=
  ∀ name raw, record name = some raw → raw.Plain ∧ senv.column name = raw.sql

/-- Every integer literal is a number that `float64` can hold. -/
def ExactInts (e : Expr) : Prop :=
  ∀ text ∈ numerals e, ∀ i, parseInt64 text = some i → roundFloat64 i = some (i : ℚ)

/-- Under any binding of the arguments, the value of `term` is the value of `e`. -/
def Means (parseTime : String → Option ℤ) (env : Env) (before : Nat) (args : List Arg) (e : Expr)
    (term : Sql.Term) : Prop :=
  ∀ senv, Binds senv before args → Holds senv env.record → ExactInts e → InScope parseTime env e →
    Simulates Same parseTime env senv e term

/-- A fragment compiled from `e`: one SQL operand, with the value of `e`. -/
def FilterOf (parseTime : String → Option ℤ) (env : Env) (before : Nat) (e : Expr) (t : String)
    (args : List Arg) : Prop :=
  ∃ term, Sql.Operand false t term ∧ Means parseTime env before args e term

section

variable {parseTime : String → Option ℤ} {env : Env} {before : Nat} {args : List Arg} {t : String} {e : Expr}

/-- A fragment is a fragment whatever arguments follow. -/
theorem FilterOf.grow {new : List Arg}
    (h : FilterOf parseTime env before e t args) : FilterOf parseTime env before e t (args ++ new) := by
  obtain ⟨term, hop, hsim⟩ := h
  exact ⟨term, hop, fun senv hb => hsim senv hb.left⟩

/-- A bound argument denotes its parameter, which holds it. -/
theorem operand_bindArg (before : Nat) (v : Arg) (args : List Arg) :
    Sql.Operand false (bindArg before v args).1 (.param (before + args.length + 1)) ∧
      ∀ senv, Binds senv before (bindArg before v args).2 →
        senv.eval (.param (before + args.length + 1)) = some v.val := by
  constructor
  · have h : Sql.Operand false _ _ := Sql.operand_param (before + (args ++ [v]).length)
    rw [length_append, length_singleton] at h
    simpa [bindArg, Nat.add_assoc] using h
  intro senv hb
  exact hb args.length v (by simp [bindArg])

theorem filterOf_string (s : String) (args : List Arg) :
    FilterOf parseTime env before (.literal (.string s)) (bindArg before (.text s) args).1
      (bindArg before (.text s) args).2 := by
  obtain ⟨hop, hval⟩ := operand_bindArg before (.text s) args
  refine ⟨_, hop, fun senv hb _ _ _ v hv => ⟨_, hval senv hb, ?_⟩⟩
  cases hv
  rfl

theorem filterOf_number {text : String} {f : ℚ} (hf : parseFloat64 text = some f) (args : List Arg) :
    FilterOf parseTime env before (.literal (.number text)) (bindArg before (.float f) args).1
      (bindArg before (.float f) args).2 := by
  obtain ⟨hop, hval⟩ := operand_bindArg before (.float f) args
  refine ⟨_, hop, fun senv hb _ hexact _ v hv => ⟨_, hval senv hb, ?_⟩⟩
  rcases literalValue_number hv with ⟨i, hi, rfl⟩ | ⟨g, -, hg, rfl⟩
  · -- an integer literal is bound as the float nearest to it, which is the integer itself
    have hround := hexact text (by simp [numerals]) i hi
    have hfloat : parseFloat64 text = some (i : ℚ) := by
      rw [parseFloat64, decimal?_of_parseInt64 hi]
      exact hround
    rw [hf] at hfloat
    cases hfloat
    rfl
  · rw [hf] at hg
    cases hg
    rfl

theorem filterOf_attr (before : Nat) {attr value : String}
    (hattr : eval parseTime env (.userAttr attr) = .ok (orNull value))
    (args : List Arg) : FilterOf parseTime env before (.userAttr attr) (bindAttr before value args).1
      (bindAttr before value args).2 := by
  unfold bindAttr
  by_cases hempty : value = ""
  · rw [if_pos hempty]
    refine ⟨.null, Sql.operand_null, fun senv _ _ _ _ v hv => ⟨.null, rfl, ?_⟩⟩
    rw [hattr, orNull, if_pos hempty] at hv
    cases hv
    rfl
  rw [if_neg hempty]
  obtain ⟨hop, hval⟩ := operand_bindArg before (.text value) args
  refine ⟨_, hop, fun senv hb _ _ _ v hv => ⟨_, hval senv hb, ?_⟩⟩
  rw [hattr, orNull, if_neg hempty] at hv
  cases hv
  rfl

theorem filterOf_bool {b : Bool} (he : eval parseTime env e = .ok (.bool b)) (args : List Arg) :
    FilterOf parseTime env before e (sqlBool b) args := by
  refine ⟨.bool b, ?_, fun senv _ _ _ _ v hv => ⟨.bool b, rfl, ?_⟩⟩
  · cases b with
    | false => exact ⟨[.word "false"], ⟨_, [], _, rfl, Sql.ends_word _, rfl⟩, fun n _ => Sql.reads_false n⟩
    | true => exact ⟨[.word "true"], ⟨_, [], _, rfl, Sql.ends_word _, rfl⟩, fun n _ => Sql.reads_true n⟩
  rw [he] at hv
  cases hv
  rfl

theorem filterOf_field {field : String} (hident : IsIdent field) (hne : field ≠ "") (args : List Arg) :
    FilterOf parseTime env before (.recordField field) (quoteColumn field) args := by
  refine ⟨.col field, operand_quoteColumn false hident, fun senv _ hcols _ _ v hv => ?_⟩
  rw [eval, if_neg hne] at hv
  cases hraw : env.record field with
  | none =>
    rw [hraw] at hv
    cases hv
  | some raw =>
    rw [hraw] at hv
    obtain ⟨hplain, hcol⟩ := hcols field raw hraw
    cases raw with
    | null => cases hv; exact ⟨_, hcol, rfl⟩
    | bool b => cases hv; exact ⟨_, hcol, rfl⟩
    | string s => cases hv; exact ⟨_, hcol, rfl⟩
    | int i => cases hv; exact ⟨_, hcol, rfl⟩
    | _ => exact absurd hplain (by simp [Raw.Plain])

variable {args' : List Arg}

theorem compileSqlLiteral_spec {value : LitValue} (h : compileSqlLiteral before value args = .ok (t, args')) :
    (∃ new, args' = args ++ new) ∧ FilterOf parseTime env before (.literal value) t args' := by
  cases value with
  | null =>
    cases h
    refine ⟨⟨[], by simp⟩, .null, Sql.operand_null, fun senv _ _ _ _ v hv => ⟨.null, rfl, ?_⟩⟩
    cases hv
    rfl
  | bool b =>
    cases b with
    | false =>
      cases h
      refine ⟨⟨[], by simp⟩, .bool false, Sql.operand_false, fun senv _ _ _ _ v hv => ⟨_, rfl, ?_⟩⟩
      cases hv
      rfl
    | true =>
      cases h
      refine ⟨⟨[], by simp⟩, .bool true, Sql.operand_true, fun senv _ _ _ _ v hv => ⟨_, rfl, ?_⟩⟩
      cases hv
      rfl
  | string s =>
    cases h
    exact ⟨⟨[.text s], rfl⟩, filterOf_string s args⟩
  | number text =>
    rw [compileSqlLiteral] at h
    cases hf : parseFloat64 text with
    | none =>
      rw [hf] at h
      cases h
    | some f =>
      rw [hf] at h
      cases h
      exact ⟨⟨[.float f], rfl⟩, filterOf_number hf args⟩

theorem compileFilter_binary {caller : Caller} {op : BinOp} {left right : Expr}
    (h : compileFilter caller before (.binary op left right) args = .ok (t, args')) :
    (op ≠ .like ∧ op ≠ .ilike) ∧ ∃ l r args1, compileFilter caller before left args = .ok (l, args1) ∧
      compileFilter caller before right args1 = .ok (r, args') ∧
      t = "(" ++ (l ++ (" " ++ op.text ++ " ") ++ r) ++ ")" := by
  have hop : op ≠ .like ∧ op ≠ .ilike := by
    constructor <;> rintro rfl <;> simp [compileFilter] at h
  refine ⟨hop, ?_⟩
  have hdo : compileFilter caller before (.binary op left right) args = (do
      let (l, args) ← compileFilter caller before left args
      let (r, args) ← compileFilter caller before right args
      .ok ("(" ++ (l ++ (" " ++ op.text ++ " ") ++ r) ++ ")", args)) := by
    cases op <;> first | rfl | simp at hop
  rw [hdo] at h
  obtain ⟨⟨l, args1⟩, hl, h⟩ := bind_eq_ok.mp h
  obtain ⟨⟨r, args2⟩, hr, h⟩ := bind_eq_ok.mp h
  cases h
  exact ⟨l, r, args1, hl, hr, rfl⟩

/-- Putting two fragments under an operator. -/
theorem filterOf_binary {op : BinOp} {left right : Expr} {l r : String} (hop : op ≠ .like ∧ op ≠ .ilike)
    (hl : FilterOf parseTime env before left l args) (hr : FilterOf parseTime env before right r args) :
    FilterOf parseTime env before (.binary op left right)
      ("(" ++ (l ++ (" " ++ op.text ++ " ") ++ r) ++ ")") args := by
  obtain ⟨a, hla, hsima⟩ := hl
  obtain ⟨b, hrb, hsimb⟩ := hr
  refine ⟨binaryTerm op a b, operand_binary hla hrb hop, fun senv hb hcols hexact hscope => ?_⟩
  have hleft := hsima senv hb hcols (fun x hx => hexact x (by simp [numerals, hx]))
    fun c hm => hscope c (by simp [comparisons, hm])
  have hright := hsimb senv hb hcols (fun x hx => hexact x (by simp [numerals, hx]))
    fun c hm => hscope c (by simp [comparisons, hm])
  have hnode : ∀ c, op.cmp? = some c → ComparesAlike Same parseTime env senv op c left right a b := by
    intro c hc x y a' b' o hx hy _ _ hxa hyb hcmp
    exact compare_same senv hc hxa hyb
      (hscope (op, left, right) (by simp [comparisons, hc]) x y hx hy) hcmp
  cases op with
  | like => exact absurd rfl hop.1
  | ilike => exact absurd rfl hop.2
  | and => exact hleft.and same_valRel hright
  | or => exact hleft.or same_valRel hright
  | eq | ne | lt | gt | le | ge => exact hleft.cmp same_valRel rfl hright (hnode _ rfl)

/-- What compiling one expression guarantees. -/
def CompilesWell (parseTime : String → Option ℤ) (env : Env) (before : Nat) (e : Expr) : Prop :=
  ∀ ⦃args args' t⦄, compileFilter env.toCaller before e args = .ok (t, args') →
    (∃ new, args' = args ++ new) ∧ FilterOf parseTime env before e t args'

variable {values : List Expr} {ts : List String}

/-- The members of an `IN` list, fragment by fragment. -/
theorem compileFilterList_spec (hall : ∀ v ∈ values, CompilesWell parseTime env before v)
    (h : compileFilterList env.toCaller before values args = .ok (ts, args')) : (∃ new, args' = args ++ new) ∧
      List.Forall₂ (fun v t => FilterOf parseTime env before v t args') values ts := by
  induction values generalizing args ts with
  | nil =>
    cases h
    exact ⟨⟨[], by simp⟩, .nil⟩
  | cons v vs ih =>
    obtain ⟨⟨x, args1⟩, hx, h⟩ := bind_eq_ok.mp h
    obtain ⟨⟨xs, args2⟩, hxs, h⟩ := bind_eq_ok.mp h
    cases h
    obtain ⟨⟨new, rfl⟩, hv⟩ := hall v (by simp) hx
    obtain ⟨⟨more, rfl⟩, hvs⟩ := ih (fun w hw => hall w (mem_cons_of_mem v hw)) hxs
    exact ⟨⟨new ++ more, by simp⟩, .cons hv.grow hvs⟩

/-- The terms of the members, beside their texts. -/
theorem filterOf_members (h : List.Forall₂ (fun v t => FilterOf parseTime env before v t args) values ts) :
    ∃ items : List (String × Sql.Term), items.map Prod.fst = ts ∧
      (∀ i ∈ items, Sql.Operand false i.1 i.2) ∧
      List.Forall₂ (Means parseTime env before args) values (items.map Prod.snd) := by
  induction h with
  | nil => exact ⟨[], rfl, by simp, .nil⟩
  | @cons v t vs ts hhead _ ih =>
    obtain ⟨term, hop, hsim⟩ := hhead
    obtain ⟨items, hfst, hitems, hall⟩ := ih
    refine ⟨(t, term) :: items, by simp [hfst], fun i hi => ?_, .cons hsim hall⟩
    rcases mem_cons.mp hi with rfl | hi
    · exact hop
    · exact hitems i hi

theorem filterOf_inList {operand : Expr} {x : String}
    (hne : values ≠ []) (ho : FilterOf parseTime env before operand x args)
    (hvs : List.Forall₂ (fun v t => FilterOf parseTime env before v t args) values ts) :
    FilterOf parseTime env before (.inList operand values)
      ("(" ++ (x ++ " IN (" ++ (", ".intercalate ts ++ ")")) ++ ")") args := by
  obtain ⟨a, hoa, hsima⟩ := ho
  obtain ⟨items, hfst, hitems, hall⟩ := filterOf_members hvs
  have hine : items ≠ [] := by
    rintro rfl
    cases hall
    exact hne rfl
  have hop := (hoa.inList hine fun i hi => (hitems i hi).inside).paren
  rw [hfst] at hop
  refine ⟨_, hop, fun senv hb hcols hexact hscope => ?_⟩
  have hoperand := hsima senv hb hcols (fun y hy => hexact y (by simp [numerals, hy]))
    fun c hm => hscope c (by simp [comparisons, hm])
  have hmem : List.Forall₂ (fun v term => v ∈ values ∧ Means parseTime env before args v term) values
      (items.map Prod.snd) := (forall₂_and_left _ _).mpr ⟨fun v hv => hv, hall⟩
  refine hoperand.inList same_valRel hne (hmem.imp ?_)
  rintro v term ⟨hv, hmeans⟩
  refine ⟨?_, ?_⟩
  · exact hmeans senv hb hcols (fun y hy => hexact y (by simp [numerals, mem_numeralsList hv hy]))
      fun c hm => hscope c (by simp [comparisons, mem_comparisonsList hv hm])
  intro y z a' b' o hy hz _ _ hya hzb hcmp
  exact compare_same senv rfl hya hzb
    (hscope (.eq, operand, v) (by simp [comparisons, hv]) y z hy hz) hcmp

/-- **A compiled filter has the value of its condition**, and its arguments extend those before it. -/
theorem compileFilter_spec (hw : WellFormed e) : CompilesWell parseTime env before e := by
  induction e with
  | recordField field =>
    intro args args' t h
    rw [compileFilter] at h
    split at h
    · cases h
    rename_i hne
    cases h
    cases hw with
    | recordField hident => exact ⟨⟨[], by simp⟩, filterOf_field hident hne _⟩
  | userAttr attr =>
    intro args args' t h
    -- the three attributes differ in the value only; an empty one is NULL and binds no argument
    have hbind : ∀ value, eval parseTime env (.userAttr attr) = .ok (orNull value) →
        bindAttr before value args = (t, args') →
        (∃ new, args' = args ++ new) ∧ FilterOf parseTime env before (.userAttr attr) t args' := by
      intro value hattr hb
      have hfilter := filterOf_attr before hattr args
      have hnew : ∃ new, (bindAttr before value args).2 = args ++ new := by
        unfold bindAttr
        split
        · exact ⟨[], by simp⟩
        · exact ⟨[.text value], rfl⟩
      rw [hb] at hfilter hnew
      exact ⟨hnew, hfilter⟩
    unfold compileFilter at h
    split at h
    iterate 3 exact hbind _ rfl (Except.ok.inj h)
    · cases h
  | tenantAttr field =>
    intro args args' t h
    cases h
  | roleCheck role =>
    intro args args' t h
    cases h
    exact ⟨⟨[], by simp⟩, filterOf_bool rfl _⟩
  | permCheck perm =>
    intro args args' t h
    rw [compileFilter] at h
    cases hperm : env.hasPermission with
    | none =>
      rw [hperm] at h
      cases h
    | some has =>
      rw [hperm] at h
      cases h
      refine ⟨⟨[], by simp⟩, filterOf_bool ?_ _⟩
      rw [eval, hperm]
  | literal value =>
    intro args args' t h
    exact compileSqlLiteral_spec h
  | binary op left right ihl ihr =>
    intro args args' t h
    obtain ⟨hop, l, r, args1, hl, hr, rfl⟩ := compileFilter_binary h
    cases hw with
    | binary hwl hwr =>
      obtain ⟨⟨new, rfl⟩, hleft⟩ := ihl hwl hl
      obtain ⟨⟨more, rfl⟩, hright⟩ := ihr hwr hr
      exact ⟨⟨new ++ more, by simp⟩, filterOf_binary hop hleft.grow hright⟩
  | not operand ih =>
    intro args args' t h
    obtain ⟨⟨x, args1⟩, hx, h⟩ := bind_eq_ok.mp h
    cases h
    cases hw with
    | not hwo =>
      obtain ⟨hnew, a, hoa, hsim⟩ := ih hwo hx
      exact ⟨hnew, .not a, hoa.not.paren, fun senv hb hc he hs => (hsim senv hb hc he hs).not same_valRel⟩
  | isNull operand n ih =>
    intro args args' t h
    obtain ⟨⟨x, args1⟩, hx, h⟩ := bind_eq_ok.mp h
    cases h
    cases hw with
    | isNull hwo =>
      obtain ⟨hnew, a, hoa, hsim⟩ := ih hwo hx
      exact ⟨hnew, .isNull a n, (hoa.isNull n).paren,
        fun senv hb hc he hs => (hsim senv hb hc he hs).isNull same_valRel n⟩
  | inList operand values ih ihv =>
    intro args args' t h
    obtain ⟨⟨x, args1⟩, hx, h⟩ := bind_eq_ok.mp h
    obtain ⟨⟨vs, args2⟩, hvs, h⟩ := bind_eq_ok.mp h
    cases h
    cases hw with
    | inList hwo hne hwv =>
      obtain ⟨⟨new, rfl⟩, hop⟩ := ih hwo hx
      obtain ⟨⟨more, rfl⟩, hall⟩ := compileFilterList_spec (fun v hv => ihv v hv (hwv v hv)) hvs
      exact ⟨⟨new ++ more, by simp⟩, filterOf_inList hne hop.grow hall⟩
  | tree op target _ =>
    intro args args' t h
    cases h

end

end GoErp.Domain
