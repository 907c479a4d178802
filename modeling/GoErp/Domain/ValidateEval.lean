import Mathlib.Data.List.Dedup
import GoErp.Domain.Eval
import GoErp.Domain.Parser

/-!
# `Domain.ValidateEval` — conditions that can be evaluated in memory

`domain/validate_eval.go` refuses the expressions that have no value in memory: a bare `record`, `tenant`, tree
operators and the search-only comparisons. `domain/fields.go` says which columns a record needs.

An accepted expression can fail because two operands have types that do not compare (`EvalError.isType`). It can fail
for other reasons as well: an attribute of the user that is not bound, a number that cannot be read, an operand of
`AND`, `OR` or `NOT` that is no truth value, a record value without a comparable form, a time against a text that is no
timestamp. `Expr.Fits` says of each part of an expression that it gives no such reason.
-/

namespace GoErp.Domain

open Lib List

/-- The errors, with the data their messages print. -/
inductive ValidateEvalError where
  /-- `domain: bare record has no value in memory` -/
  | bareRecord
  /-- `domain: tenant.%s is not bound when evaluating a record` -/
  | tenantAttr (field : String)
  /-- `domain: %s cannot be evaluated in memory` -/
  | tree (op : TreeOp)
  /-- `domain: %s cannot be evaluated in memory` -/
  | searchOnly (op : BinOp)
  deriving DecidableEq

mutual

/-- `ValidateEval` -/
def validateEval : Expr → Except ValidateEvalError Unit
  | .recordField field => if field = "" then .error .bareRecord else .ok ()
  | .userAttr _ => .ok ()
  | .roleCheck _ => .ok ()
  | .permCheck _ => .ok ()
  | .literal _ => .ok ()
  | .tenantAttr field => .error (.tenantAttr field)
  | .tree op _ => .error (.tree op)
  | .binary op left right =>
    if op = .like ∨ op = .ilike then .error (.searchOnly op)
    else do
      validateEval left
      validateEval right
  | .not operand => validateEval operand
  | .isNull operand _ => validateEval operand
  | .inList operand values => do
    validateEval operand
    validateEvalList values

def validateEvalList : List Expr → Except ValidateEvalError Unit
  | [] => .ok ()
  | v :: vs => do
    validateEval v
    validateEvalList vs

end

mutual

/-- The record fields a condition reads, in the order of the walk. -/
def collectRecordFields : Expr → List String
  | .recordField field => if field = "" then [] else [field]
  | .binary _ left right => collectRecordFields left ++ collectRecordFields right
  | .not operand => collectRecordFields operand
  | .isNull operand _ => collectRecordFields operand
  | .inList operand values => collectRecordFields operand ++ collectRecordFieldsList values
  | .tree _ target => collectRecordFields target
  | _ => []

def collectRecordFieldsList : List Expr → List String
  | [] => []
  | v :: vs => collectRecordFields v ++ collectRecordFieldsList vs

end

def RecordFields (expr : Expr) : List String :=
  (collectRecordFields expr).dedup.mergeSort fun a b => decide (a ≤ b)

theorem mem_recordFields {expr : Expr} {field : String} :
    field ∈ RecordFields expr ↔ field ∈ collectRecordFields expr := by
  unfold RecordFields
  rw [mem_mergeSort, mem_dedup]

/-- The fields of a member are fields of the list. -/
theorem mem_collectRecordFieldsList {values : List Expr} {v : Expr} (hv : v ∈ values) {field : String}
    (h : field ∈ collectRecordFields v) : field ∈ collectRecordFieldsList values := by
  induction values with
  | nil => cases hv
  | cons w ws ih =>
    rw [collectRecordFieldsList, mem_append]
    rcases mem_cons.mp hv with rfl | hv
    · exact .inl h
    · exact .inr (ih hv)

/-! ## Failures that are about two operands -/

/-- The evaluation error about the types of two operands. -/
def EvalError.isType : EvalError → Bool
  | .cannotCompare _ _ => true
  | _ => false

/-- The computation fails only because two operands do not compare. -/
def OnlyTypes {α : Type} (x : Except EvalError α) : Prop := ∀ err, x = .error err → err.isType = true

section

variable {α β : Type}

/-- The steps of a computation fail only for types, the later ones on what the earlier ones return. -/
theorem OnlyTypes.bind {x : Except EvalError α} {f : α → Except EvalError β} (hx : OnlyTypes x)
    (hf : ∀ a, x = .ok a → OnlyTypes (f a)) : OnlyTypes (x >>= f) := by
  intro err herr
  rcases bind_eq_error.mp herr with h | ⟨a, ha, h⟩
  · exact hx err h
  · exact hf a ha err h

theorem onlyTypes_ok (a : α) : OnlyTypes (.ok a : Except EvalError α) := by
  intro err herr
  cases herr

theorem onlyTypes_of_ok {x : Except EvalError α} {a : α} (h : x = .ok a) : OnlyTypes x := h ▸ onlyTypes_ok a

end

/-! ## Parts of an expression -/

/-- An expression and what it is made of. -/
inductive Part (e : Expr) : Expr → Prop where
  | refl : Part e e
  | left {op l r} : Part e (.binary op l r) → Part e l
  | right {op l r} : Part e (.binary op l r) → Part e r
  | not {x} : Part e (.not x) → Part e x
  | isNull {x n} : Part e (.isNull x n) → Part e x
  | operand {x vs} : Part e (.inList x vs) → Part e x
  | member {x vs v} : v ∈ vs → Part e (.inList x vs) → Part e v

theorem Part.trans {a b c : Expr} (hab : Part a b) (hbc : Part b c) : Part a c := by
  induction hbc with
  | refl => exact hab
  | left _ ih => exact ih.left
  | right _ ih => exact ih.right
  | not _ ih => exact ih.not
  | isNull _ ih => exact ih.isNull
  | operand _ ih => exact ih.operand
  | member hv _ ih => exact ih.member hv

theorem validateEval_of_mem {values : List Expr} (h : validateEvalList values = .ok ()) :
    ∀ v ∈ values, validateEval v = .ok () := by
  induction values with
  | nil => exact nofun
  | cons v vs ih =>
    obtain ⟨⟨⟩, hv, hvs⟩ := bind_eq_ok.mp h
    exact forall_mem_cons.mpr ⟨hv, ih hvs⟩

theorem validateEval_binary {op : BinOp} {l r : Expr} (h : validateEval (.binary op l r) = .ok ()) :
    ¬ (op = .like ∨ op = .ilike) ∧ validateEval l = .ok () ∧ validateEval r = .ok () := by
  rw [validateEval] at h
  split at h
  · cases h
  rename_i hop
  obtain ⟨⟨⟩, hl, hr⟩ := bind_eq_ok.mp h
  exact ⟨hop, hl, hr⟩

/-! ## What a part needs -/

/-- The attributes of the user that `eval` binds. -/
def Caller.attr (c : Caller) : String → Option String
  | "id" => some c.userID
  | "contact_id" => some c.contactID
  | "tenant_id" => some c.tenantID
  | _ => none

/-- A boolean or `NULL`. -/
def Value.isTruth : Value → Bool
  | .null | .bool _ => true
  | _ => false

def Value.text : Value → Option String
  | .string s => some s
  | _ => none

def Value.isTime : Value → Bool
  | .time _ => true
  | _ => false

/-- A record value that is a boolean or `NULL`. -/
def Raw.isTruth : Raw → Bool
  | .null | .bool _ | .stringer none => true
  | _ => false

/-- A record value that `normalize` makes a text of. -/
def Raw.text : Raw → Option String
  | .string s | .bytes s | .uuid s | .stringer (some s) => some s
  | _ => none

def Raw.isTime : Raw → Bool
  | .time _ => true
  | _ => false

section

variable (env : Env)

/-- The expression can stand for a truth value: it is none of the literals and attributes that are texts or numbers, and
no record field that holds one. -/
def Expr.Truth : Expr → Prop
  | .recordField field => ∀ raw, env.record field = some raw → raw.isTruth = true
  | .userAttr attr => env.attr attr = some ""
  | .literal value => value = .null ∨ ∃ b, value = .bool b
  | _ => True

/-- A record field that holds a time. -/
def Expr.IsTime : Expr → Prop
  | .recordField field => ∃ raw, env.record field = some raw ∧ raw.isTime = true
  | _ => False

/-- The text that an operand stands for. -/
def Expr.text : Expr → Option String
  | .recordField field => (env.record field).bind Raw.text
  | .userAttr attr => (env.attr attr).filter (· ≠ "")
  | .literal (.string s) => some s
  | _ => none

variable (parseTime : String → Option ℤ)

/-- A text that is compared with a time is a timestamp. -/
def Dated (l r : Expr) : Prop :=
  ∀ s, l.IsTime env ∧ r.text env = some s ∨ l.text env = some s ∧ r.IsTime env → (parseTime s).isSome = true

/-- A part of an expression gives no reason to fail besides the types of two operands. -/
def Expr.Fits : Expr → Prop
  | .recordField field => ∀ raw, env.record field = some raw → ∃ v, normalize raw = .ok v
  | .userAttr attr => (env.attr attr).isSome = true
  | .literal value => ∃ v, literalValue value = .ok v
  | .not x => x.Truth env
  | .binary .and l r | .binary .or l r => l.Truth env ∧ r.Truth env
  | .binary _ l r => Dated env parseTime l r
  | .inList x vs => ∀ v ∈ vs, Dated env parseTime x v
  | _ => True

/-- The expression and its parts give no other reason to fail on the record. -/
def Fitting (e : Expr) : Prop := e.Truth env ∧ ∀ p, Part e p → p.Fits env parseTime

end

/-! ## The values of operands -/

section

variable {env : Env} {parseTime : String → Option ℤ} {v : Value}

/-- The operands of `AND`, `OR` and `NOT` are truth values. -/
theorem exists_asBool_iff : (∃ b, asBool v = .ok b) ↔ v.isTruth = true := by
  cases v <;> simp [asBool, Value.isTruth]

theorem isTruth_logical (op : BinOp) (l r : Option Bool) : (logical op l r).isTruth = true := by
  unfold logical
  split
  · rfl
  split <;> rfl

theorem isTruth_evalIn {operand : Value} {sawNull matched : Bool} {values : List Expr}
    (h : evalIn parseTime env operand sawNull matched values = .ok v) : v.isTruth = true := by
  induction values generalizing sawNull matched with
  | nil =>
    cases h
    split
    · rfl
    split <;> rfl
  | cons ve ves ih =>
    obtain ⟨w, -, h⟩ := bind_eq_ok.mp h
    split at h
    · exact ih h
    · obtain ⟨order, -, h⟩ := bind_eq_ok.mp h
      exact ih h

/-- What a part does with the values of its operands, for the operators that compare. -/
theorem eval_compare {op : BinOp} {l r : Expr} (hsearch : ¬ (op = .like ∨ op = .ilike))
    (hlogical : ¬ (op = .and ∨ op = .or)) :
    eval parseTime env (.binary op l r) = (do
      let x ← eval parseTime env l
      let y ← eval parseTime env r
      if x = .null ∨ y = .null then .ok .null
      else do
        let order ← compare parseTime x y
        .ok (.bool (op.verdict order))) := by
  cases op with
  | like => exact absurd (.inl rfl) hsearch
  | ilike => exact absurd (.inr rfl) hsearch
  | and => exact absurd (.inl rfl) hlogical
  | or => exact absurd (.inr rfl) hlogical
  | _ => rfl

theorem eval_logical {op : BinOp} {l r : Expr} (hlogical : op = .and ∨ op = .or) :
    eval parseTime env (.binary op l r) = (do
      let x ← asBool (← eval parseTime env l)
      let y ← asBool (← eval parseTime env r)
      .ok (logical op x y)) := by
  rcases hlogical with rfl | rfl <;> rfl

theorem fits_logical {op : BinOp} {l r : Expr} (hlogical : op = .and ∨ op = .or) :
    (Expr.binary op l r).Fits env parseTime ↔ l.Truth env ∧ r.Truth env := by
  rcases hlogical with rfl | rfl <;> exact Iff.rfl

theorem fits_compare {op : BinOp} {l r : Expr} (hlogical : ¬ (op = .and ∨ op = .or)) :
    (Expr.binary op l r).Fits env parseTime ↔ Dated env parseTime l r := by
  cases op with
  | and => exact absurd (.inl rfl) hlogical
  | or => exact absurd (.inr rfl) hlogical
  | _ => exact Iff.rfl

theorem eval_userAttr (attr : String) :
    eval parseTime env (.userAttr attr) =
      match env.attr attr with
      | some s => .ok (orNull s)
      | none => .error (.attrNotBound attr) := by
  rw [eval.eq_def]
  dsimp only
  split
  · rfl
  · rfl
  · rfl
  · rename_i hid hcontact htenant
    have hnone : env.attr attr = none := by
      unfold Caller.attr
      split <;> first | contradiction | rfl
    rw [hnone]

/-- The values of a field, an attribute and a literal; every other part has a truth value. -/
inductive HasValue (env : Env) : Expr → Value → Prop where
  | field {field raw v} : env.record field = some raw → normalize raw = .ok v → HasValue env (.recordField field) v
  | attr {attr s} : env.attr attr = some s → HasValue env (.userAttr attr) (orNull s)
  | literal {value v} : literalValue value = .ok v → HasValue env (.literal value) v
  | truth {e v} : (∀ env, e.Truth env ∧ ¬ e.IsTime env ∧ e.text env = none) → v.isTruth = true → HasValue env e v

theorem hasValue_of_eval {e : Expr} (h : eval parseTime env e = .ok v) : HasValue env e v := by
  cases e with
  | recordField field =>
    rw [eval] at h
    split at h
    · cases h
    split at h
    · cases h
    rename_i raw hraw
    exact .field hraw h
  | userAttr attr =>
    rw [eval_userAttr] at h
    split at h
    · rename_i s hs
      cases h
      exact .attr hs
    · cases h
  | tenantAttr field => cases h
  | literal value => exact .literal h
  | roleCheck role =>
    cases h
    exact .truth (fun _ => ⟨trivial, id, rfl⟩) rfl
  | permCheck perm =>
    rw [eval] at h
    split at h
    · cases h
    · cases h
      exact .truth (fun _ => ⟨trivial, id, rfl⟩) rfl
  | binary op l r =>
    refine .truth (fun _ => ⟨trivial, id, rfl⟩) ?_
    by_cases hsearch : op = .like ∨ op = .ilike
    · rcases hsearch with rfl | rfl <;> cases h
    by_cases hlogical : op = .and ∨ op = .or
    · rw [eval_logical hlogical] at h
      obtain ⟨_, -, h⟩ := bind_eq_ok.mp h
      obtain ⟨_, -, h⟩ := bind_eq_ok.mp h
      obtain ⟨_, -, h⟩ := bind_eq_ok.mp h
      obtain ⟨_, -, h⟩ := bind_eq_ok.mp h
      cases h
      exact isTruth_logical op _ _
    · rw [eval_compare hsearch hlogical] at h
      obtain ⟨_, -, h⟩ := bind_eq_ok.mp h
      obtain ⟨_, -, h⟩ := bind_eq_ok.mp h
      split at h
      · cases h
        rfl
      · obtain ⟨_, -, h⟩ := bind_eq_ok.mp h
        cases h
        rfl
  | not x =>
    refine .truth (fun _ => ⟨trivial, id, rfl⟩) ?_
    obtain ⟨_, -, h⟩ := bind_eq_ok.mp h
    obtain ⟨b, -, h⟩ := bind_eq_ok.mp h
    cases b <;> cases h <;> rfl
  | isNull x n =>
    refine .truth (fun _ => ⟨trivial, id, rfl⟩) ?_
    obtain ⟨_, -, h⟩ := bind_eq_ok.mp h
    cases h
    rfl
  | inList x vs =>
    refine .truth (fun _ => ⟨trivial, id, rfl⟩) ?_
    obtain ⟨_, -, h⟩ := bind_eq_ok.mp h
    exact isTruth_evalIn h
  | tree op target => cases h

/-- `normalize` keeps truth values, texts and times apart. -/
theorem kinds_normalize {raw : Raw} (h : normalize raw = .ok v) :
    v.isTruth = raw.isTruth ∧ v.text = raw.text ∧ v.isTime = raw.isTime := by
  cases raw with
  | uint n =>
    cases h
    unfold normalizeUnsigned
    split <;> exact ⟨rfl, rfl, rfl⟩
  | stringer s => cases s <;> cases h <;> exact ⟨rfl, rfl, rfl⟩
  | other typeName => cases h
  | _ =>
    cases h
    exact ⟨rfl, rfl, rfl⟩

variable (env) in
/-- A literal is a truth value, a text or a number. -/
theorem kinds_literalValue {value : LitValue} (h : literalValue value = .ok v) :
    (v.isTruth = true ↔ value = .null ∨ ∃ b, value = .bool b) ∧
      v.text = (Expr.literal value).text env ∧ v.isTime = false := by
  cases value with
  | number text =>
    unfold literalValue at h
    dsimp only at h
    split at h
    · cases h
      simp [Value.isTruth, Value.text, Value.isTime, Expr.text]
    split at h
    · cases h
      simp [Value.isTruth, Value.text, Value.isTime, Expr.text]
    · cases h
  | _ =>
    cases h
    simp [Value.isTruth, Value.text, Value.isTime, Expr.text]

variable {e : Expr}

/-- An operand can stand for a truth value exactly if its value is one. -/
theorem HasValue.truth_iff (h : HasValue env e v) : e.Truth env ↔ v.isTruth = true := by
  cases h with
  | field hraw hv =>
    rw [(kinds_normalize hv).1]
    exact ⟨fun ht => ht _ hraw, fun ht raw hraw' => Option.some.inj (hraw.symm.trans hraw') ▸ ht⟩
  | attr hs =>
    rename_i attr s
    show env.attr attr = some "" ↔ _
    rw [hs, orNull]
    split <;> simp_all [Value.isTruth]
  | literal hv => exact (kinds_literalValue env hv).1.symm
  | truth he hv => exact ⟨fun _ => hv, fun _ => (he env).1⟩

theorem HasValue.isTime_iff (h : HasValue env e v) : e.IsTime env ↔ v.isTime = true := by
  cases h with
  | field hraw hv =>
    rw [(kinds_normalize hv).2.2]
    constructor
    · rintro ⟨raw, hraw', ht⟩
      exact Option.some.inj (hraw'.symm.trans hraw) ▸ ht
    · exact fun ht => ⟨_, hraw, ht⟩
  | attr hs =>
    rename_i attr s
    show False ↔ _
    rw [orNull]
    split <;> simp [Value.isTime]
  | literal hv => simp [Expr.IsTime, (kinds_literalValue env hv).2.2]
  | truth he hv =>
    refine ⟨fun ht => absurd ht (he env).2.1, fun ht => ?_⟩
    cases v <;> cases ht
    cases hv

theorem HasValue.text_eq (h : HasValue env e v) : e.text env = v.text := by
  cases h with
  | field hraw hv => rw [(kinds_normalize hv).2.1, Expr.text, hraw, Option.bind_some]
  | attr hs =>
    rw [Expr.text, hs, orNull]
    split <;> simp_all [Value.text, Option.filter]
  | literal hv => exact (kinds_literalValue env hv).2.1.symm
  | truth he hv =>
    rw [(he env).2.2]
    cases v <;> first | rfl | cases hv

/-! ## Comparisons -/

/-- A text against a time that it is no timestamp for. -/
def Undated (parseTime : String → Option ℤ) (a b : Value) : Prop :=
  ∃ s, (a.isTime = true ∧ b.text = some s ∨ a.text = some s ∧ b.isTime = true) ∧ parseTime s = none

/-- A comparison fails for the types of its operands, but for a text that is no timestamp. -/
theorem onlyTypes_compare_iff (a b : Value) : OnlyTypes (compare parseTime a b) ↔ ¬Undated parseTime a b := by
  unfold OnlyTypes Undated
  cases a with
  | string x =>
    cases b with
    | time y => cases h : parseTime x <;> simp [compare, Value.isTime, Value.text, EvalError.isType, h]
    | _ => simp [compare, Value.isTime, Value.text, EvalError.isType]
  | time x =>
    cases b with
    | string y => cases h : parseTime y <;> simp [compare, Value.isTime, Value.text, EvalError.isType, h]
    | _ => simp [compare, Value.isTime, Value.text, EvalError.isType]
  | _ => cases b <;> simp [compare, Value.isTime, Value.text, EvalError.isType]

theorem dated_iff {l r : Expr} {a b : Value} (hl : HasValue env l a) (hr : HasValue env r b) :
    Dated env parseTime l r ↔ ¬Undated parseTime a b := by
  simp only [Dated, Undated, hl.isTime_iff, hr.isTime_iff, hl.text_eq, hr.text_eq, not_exists, not_and,
    Option.isSome_iff_ne_none, ne_eq]

theorem not_undated_of_null {a b : Value} (h : a = .null ∨ b = .null) : ¬Undated parseTime a b := by
  rintro ⟨s, hs, -⟩
  rcases h with rfl | rfl <;> simp [Value.isTime, Value.text] at hs

/-! ## An expression that fits -/

theorem onlyTypes_asBool (h : v.isTruth = true) : OnlyTypes (asBool v) := by
  obtain ⟨b, hb⟩ := exists_asBool_iff.mpr h
  exact onlyTypes_of_ok hb

theorem onlyTypes_compare {l r : Expr} {a b : Value} (hl : eval parseTime env l = .ok a)
    (hr : eval parseTime env r = .ok b) (hd : Dated env parseTime l r) : OnlyTypes (compare parseTime a b) :=
  (onlyTypes_compare_iff a b).mpr ((dated_iff (hasValue_of_eval hl) (hasValue_of_eval hr)).mp hd)

theorem onlyTypes_evalIn {x : Expr} {operand : Value} (hx : eval parseTime env x = .ok operand) {values : List Expr}
    (h : ∀ v ∈ values, OnlyTypes (eval parseTime env v)) (hd : ∀ v ∈ values, Dated env parseTime x v)
    (sawNull matched : Bool) : OnlyTypes (evalIn parseTime env operand sawNull matched values) := by
  induction values generalizing sawNull matched with
  | nil => exact onlyTypes_ok _
  | cons v vs ih =>
    obtain ⟨hv, hvs⟩ := forall_mem_cons.mp h
    obtain ⟨hdv, hdvs⟩ := forall_mem_cons.mp hd
    refine hv.bind fun w hw => ?_
    split
    · exact ih hvs hdvs _ _
    · exact (onlyTypes_compare hx hw hdv).bind fun _ _ => ih hvs hdvs _ _

/-- `AND` and `OR` take truth values, the other operators compare. -/
theorem onlyTypes_binary {op : BinOp} {l r : Expr} (hsearch : ¬ (op = .like ∨ op = .ilike))
    (hl : OnlyTypes (eval parseTime env l)) (hr : OnlyTypes (eval parseTime env r))
    (hfits : (Expr.binary op l r).Fits env parseTime) : OnlyTypes (eval parseTime env (.binary op l r)) := by
  by_cases hlogical : op = .and ∨ op = .or
  · rw [eval_logical hlogical]
    obtain ⟨htl, htr⟩ := (fits_logical hlogical).mp hfits
    refine hl.bind fun a ha => ?_
    refine (onlyTypes_asBool ((hasValue_of_eval ha).truth_iff.mp htl)).bind fun _ _ => ?_
    refine hr.bind fun b hb => ?_
    exact (onlyTypes_asBool ((hasValue_of_eval hb).truth_iff.mp htr)).bind fun _ _ => onlyTypes_ok _
  · rw [eval_compare hsearch hlogical]
    refine hl.bind fun a ha => hr.bind fun b hb => ?_
    split
    · exact onlyTypes_ok _
    · exact (onlyTypes_compare ha hb ((fits_compare hlogical).mp hfits)).bind fun _ _ => onlyTypes_ok _

/-- **An accepted expression whose parts fit fails only for the types of two operands.** -/
theorem onlyTypes_eval (hperm : env.hasPermission.isSome = true) {e : Expr} (he : validateEval e = .ok ())
    (hrecord : ∀ f ∈ collectRecordFields e, (env.record f).isSome = true)
    (hfits : ∀ p, Part e p → p.Fits env parseTime) : OnlyTypes (eval parseTime env e) := by
  induction e with
  | recordField field =>
    rw [validateEval] at he
    split at he
    · cases he
    rename_i hfield
    rw [collectRecordFields, if_neg hfield] at hrecord
    obtain ⟨raw, hraw⟩ := Option.isSome_iff_exists.mp (hrecord field mem_cons_self)
    obtain ⟨v, hv⟩ := hfits _ .refl raw hraw
    rw [eval, if_neg hfield, hraw]
    exact onlyTypes_of_ok hv
  | userAttr attr =>
    obtain ⟨s, hs⟩ := Option.isSome_iff_exists.mp (hfits _ .refl)
    rw [eval_userAttr, hs]
    exact onlyTypes_ok _
  | tenantAttr field => cases he
  | roleCheck role => exact onlyTypes_ok _
  | permCheck perm =>
    obtain ⟨has, hhas⟩ := Option.isSome_iff_exists.mp hperm
    rw [eval, hhas]
    exact onlyTypes_ok _
  | literal value =>
    obtain ⟨v, hv⟩ := hfits _ .refl
    exact onlyTypes_of_ok hv
  | binary op l r ihl ihr =>
    obtain ⟨hop, hl, hr⟩ := validateEval_binary he
    simp only [collectRecordFields, forall_mem_append] at hrecord
    exact onlyTypes_binary hop (ihl hl hrecord.1 fun p hp => hfits p (Part.refl.left.trans hp))
      (ihr hr hrecord.2 fun p hp => hfits p (Part.refl.right.trans hp)) (hfits _ .refl)
  | not x ih =>
    refine (ih he hrecord fun p hp => hfits p (Part.refl.not.trans hp)).bind fun a ha => ?_
    refine (onlyTypes_asBool ((hasValue_of_eval ha).truth_iff.mp (hfits _ .refl))).bind fun b _ => ?_
    cases b <;> exact onlyTypes_ok _
  | isNull x n ih =>
    exact (ih he hrecord fun p hp => hfits p (Part.refl.isNull.trans hp)).bind fun _ _ => onlyTypes_ok _
  | inList x vs ih ihs =>
    obtain ⟨⟨⟩, hx, hvs⟩ := bind_eq_ok.mp he
    simp only [collectRecordFields, forall_mem_append] at hrecord
    refine (ih hx hrecord.1 fun p hp => hfits p (Part.refl.operand.trans hp)).bind fun a ha => ?_
    refine onlyTypes_evalIn ha (fun v hv => ?_) (hfits _ .refl) _ _
    exact ihs v hv (validateEval_of_mem hvs v hv) (fun f hf => hrecord.2 f (mem_collectRecordFieldsList hv hf))
      fun p hp => hfits p ((Part.refl.member hv).trans hp)
  | tree op target => cases he

/-! ## An expression that has a value -/

/-- Both operands of an operator have values, truth values for `AND` and `OR`. -/
theorem operands_of_binary {op : BinOp} {l r : Expr} (h : eval parseTime env (.binary op l r) = .ok v) :
    ∃ a b, eval parseTime env l = .ok a ∧ eval parseTime env r = .ok b ∧
      (Expr.binary op l r).Fits env parseTime := by
  by_cases hsearch : op = .like ∨ op = .ilike
  · rcases hsearch with rfl | rfl <;> cases h
  by_cases hlogical : op = .and ∨ op = .or
  · rw [eval_logical hlogical] at h
    obtain ⟨a, ha, h⟩ := bind_eq_ok.mp h
    obtain ⟨x, hx, h⟩ := bind_eq_ok.mp h
    obtain ⟨b, hb, h⟩ := bind_eq_ok.mp h
    obtain ⟨y, hy, -⟩ := bind_eq_ok.mp h
    refine ⟨a, b, ha, hb, (fits_logical hlogical).mpr ⟨?_, ?_⟩⟩
    · exact (hasValue_of_eval ha).truth_iff.mpr (exists_asBool_iff.mp ⟨x, hx⟩)
    · exact (hasValue_of_eval hb).truth_iff.mpr (exists_asBool_iff.mp ⟨y, hy⟩)
  · rw [eval_compare hsearch hlogical] at h
    obtain ⟨a, ha, h⟩ := bind_eq_ok.mp h
    obtain ⟨b, hb, h⟩ := bind_eq_ok.mp h
    refine ⟨a, b, ha, hb, (fits_compare hlogical).mpr ?_⟩
    rw [dated_iff (hasValue_of_eval ha) (hasValue_of_eval hb)]
    split at h
    · rename_i hnull
      exact not_undated_of_null hnull
    · obtain ⟨order, horder, -⟩ := bind_eq_ok.mp h
      exact (onlyTypes_compare_iff a b).mp (onlyTypes_of_ok horder)

/-- The members of a list that was searched have values, which compare with the operand. -/
theorem members_of_evalIn {operand : Value} {sawNull matched : Bool} {values : List Expr}
    (h : evalIn parseTime env operand sawNull matched values = .ok v) :
    ∀ ve ∈ values, ∃ w, eval parseTime env ve = .ok w ∧ ¬Undated parseTime operand w := by
  induction values generalizing sawNull matched with
  | nil =>
    intro ve hve
    cases hve
  | cons ve ves ih =>
    obtain ⟨w, hw, h⟩ := bind_eq_ok.mp h
    refine forall_mem_cons.mpr ?_
    split at h
    · rename_i hnull
      exact ⟨⟨w, hw, not_undated_of_null hnull⟩, ih h⟩
    · obtain ⟨order, horder, h⟩ := bind_eq_ok.mp h
      exact ⟨⟨w, hw, (onlyTypes_compare_iff operand w).mp (onlyTypes_of_ok horder)⟩, ih h⟩

/-- An error in a part is an error of the whole: nothing is skipped. -/
theorem part_evaluates {p : Expr} (h : Part e p) (he : ∃ v, eval parseTime env e = .ok v) :
    ∃ v, eval parseTime env p = .ok v := by
  induction h with
  | refl => exact he
  | left _ ih =>
    obtain ⟨v, hv⟩ := ih
    obtain ⟨a, -, ha, -⟩ := operands_of_binary hv
    exact ⟨a, ha⟩
  | right _ ih =>
    obtain ⟨v, hv⟩ := ih
    obtain ⟨-, b, -, hb, -⟩ := operands_of_binary hv
    exact ⟨b, hb⟩
  | not _ ih | isNull _ ih | operand _ ih =>
    obtain ⟨v, hv⟩ := ih
    obtain ⟨a, ha, -⟩ := bind_eq_ok.mp hv
    exact ⟨a, ha⟩
  | member hmem _ ih =>
    obtain ⟨v, hv⟩ := ih
    obtain ⟨a, -, hin⟩ := bind_eq_ok.mp hv
    obtain ⟨w, hw, -⟩ := members_of_evalIn hin _ hmem
    exact ⟨w, hw⟩

theorem fits_of_eval {p : Expr} (h : eval parseTime env p = .ok v) : p.Fits env parseTime := by
  cases p with
  | recordField field =>
    intro raw hraw
    cases hasValue_of_eval h with
    | field hraw' hv => exact ⟨v, Option.some.inj (hraw'.symm.trans hraw) ▸ hv⟩
    | truth he _ => exact absurd ((he ⟨env.toCaller, fun _ => some (.int 0)⟩).1 _ rfl) (by decide)
  | userAttr attr =>
    rw [eval_userAttr] at h
    split at h
    · rename_i s hs
      show (env.attr attr).isSome = true
      rw [hs]
      rfl
    · cases h
  | literal value => exact ⟨v, h⟩
  | not x =>
    obtain ⟨a, ha, h⟩ := bind_eq_ok.mp h
    obtain ⟨b, hb, -⟩ := bind_eq_ok.mp h
    exact (hasValue_of_eval ha).truth_iff.mpr (exists_asBool_iff.mp ⟨b, hb⟩)
  | binary op l r =>
    obtain ⟨-, -, -, -, hfits⟩ := operands_of_binary h
    exact hfits
  | inList x vs =>
    obtain ⟨a, ha, hin⟩ := bind_eq_ok.mp h
    intro ve hve
    obtain ⟨w, hw, hdated⟩ := members_of_evalIn hin ve hve
    exact (dated_iff (hasValue_of_eval ha) (hasValue_of_eval hw)).mpr hdated
  | _ => trivial

end

/-! ## Two conditions -/

/-- A caller with no permissions, and a record of an order. -/
def orderEnv : Env where
  userID := "u1"
  contactID := ""
  tenantID := "t1"
  roles := []
  hasPermission := some fun _ => false
  record
    | "owner_id" => some (.string "u1")
    | "total" => some (.int 7)
    | _ => none

/-- `record.owner_id = current_user.id AND record.total > 'many'` -/
def ownedAndMany : Expr :=
  .binary .and (.binary .eq (.recordField "owner_id") (.userAttr "id"))
    (.binary .gt (.recordField "total") (.literal (.string "many")))

end GoErp.Domain
