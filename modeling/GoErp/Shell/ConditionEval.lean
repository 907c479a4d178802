import GoErp.Shell.ConditionParser

/-!
# `Shell.ConditionEval` — the shell evaluates a condition

`domain/interpreter.ts`, for conditions. `null` is SQL's unknown. The shell stops at the operand that settles an
`AND`, an `OR` or an `IN`; the engine evaluates all of them, and fails where one fails. So where both return, the rest
is a comparison of values: `SameValue`. A number of the shell is a finite `float64`, kept as the rational it denotes;
only the conversion of a numeric string can be infinite.
-/

namespace GoErp.Shell

open Lib Lib.Number List

/-! ## The interpreter -/

inductive Value where
  | null
  | bool (b : Bool)
  | number (q : ℚ)
  | string (s : JsString)
  | object
  deriving DecidableEq

/-- What a record holds under a name. -/
inductive Raw where
  | undefined
  | value (v : Value)
  /-- a function, a symbol or a bigint, by its `typeof` -/
  | unsupported (type : String)

structure UserBindings where
  id : JsString
  contactId : Option JsString
  tenantId : JsString
  roles : List JsString
  permissions : JsString → Bool

structure ConditionBindings where
  record : JsString → Raw
  user : UserBindings

/-- The errors of the evaluation, with the data their messages print. -/
inductive InterpretError where
  /-- `expected a boolean, got %s` -/
  | expectedBoolean (got : Value)
  /-- `record.%s holds an unsupported %s value` -/
  | unsupported (field : JsString) (type : String)
  /-- `cannot compare %s with %s` -/
  | cannotCompare (left right : Value)
  /-- `booleans only support = and !=, got %s` -/
  | booleanOrder (op : ComparisonOp)
  deriving DecidableEq

/-- What a numeric string is converted to. -/
abbrev Numeric := WithBot (WithTop ℚ)

/-- `NUMERIC_STRING`: `^-?\d+(\.\d+)?$`, and its value. -/
def toNumeric (s : JsString) : Option Numeric :=
  if s.head? = some (unit '-') then
    if isNumberLiteral s.tail then
      some (match parseFloat64 (asciiText s.tail) with
        | some q => ((-q : ℚ) : WithTop ℚ)
        | none => ⊥)
    else none
  else if isNumberLiteral s then
    some (match parseFloat64 (asciiText s) with
      | some q => (q : WithTop ℚ)
      | none => (⊤ : WithTop ℚ))
  else none

/-- `===`, `!==`, `<`, `>`, `<=` and `>=` on values of one type. -/
def ComparisonOp.holds {α : Type} [LT α] [DecidableEq α] [DecidableRel (α := α) (· < ·)] (op : ComparisonOp)
    (a b : α) : Bool :=
  match op with
  | .eq => a = b
  | .ne => a ≠ b
  | .lt => a < b
  | .gt => b < a
  | .le => ¬ b < a
  | .ge => ¬ a < b

/-- `compare` -/
def compare (op : ComparisonOp) (left right : Value) : Except InterpretError Bool :=
  match left, right with
  | .bool a, .bool b =>
    if op = .eq then .ok (a = b) else if op = .ne then .ok (a ≠ b) else .error (.booleanOrder op)
  | .number a, .number b => .ok (op.holds a b)
  | .string a, .string b =>
    if op = .eq ∨ op = .ne then .ok (op.holds a b)
    else match toNumeric a, toNumeric b with
      | some x, some y => .ok (op.holds x y)
      | _, _ => .ok (op.holds a b)
  | .number a, .string b =>
    match toNumeric b with
    | some y => .ok (op.holds ((a : WithTop ℚ) : Numeric) y)
    | none => .error (.cannotCompare left right)
  | .string a, .number b =>
    match toNumeric a with
    | some x => .ok (op.holds x ((b : WithTop ℚ) : Numeric))
    | none => .error (.cannotCompare left right)
  | _, _ => .error (.cannotCompare left right)

/-- `scalar` -/
def scalar (field : JsString) : Raw → Except InterpretError Value
  | .undefined => .ok .null
  | .value v => .ok v
  | .unsupported type => .error (.unsupported field type)

def Literal.value : Literal → Value
  | .null => .null
  | .bool b => .bool b
  | .string s => .string s
  | .number q => .number q

def asBoolean : Value → Except InterpretError (Option Bool)
  | .null => .ok none
  | .bool b => .ok (some b)
  | v => .error (.expectedBoolean v)

/-- A truth value as a value. -/
def ofBoolean : Option Bool → Value
  | none => .null
  | some b => .bool b

mutual

def evalExpr (b : ConditionBindings) : Expr → Except InterpretError Value
  | .literal value => .ok value.value
  | .record field => scalar field (b.record field)
  | .user attr =>
    .ok (match attr with
      | .id => .string b.user.id
      | .contactId => match b.user.contactId with
        | some c => .string c
        | none => .null
      | .tenantId => .string b.user.tenantId)
  | .role role => .ok (.bool (b.user.roles.contains role))
  | .permission permission => .ok (.bool (b.user.permissions permission))
  | .not operand => do
    let v ← asBoolean (← evalExpr b operand)
    .ok (ofBoolean (v.map not))
  | .and left right => do
    let l ← asBoolean (← evalExpr b left)
    if l = some false then .ok (.bool false)
    else do
      let r ← asBoolean (← evalExpr b right)
      if r = some false then .ok (.bool false)
      else .ok (if l = none ∨ r = none then .null else .bool true)
  | .or left right => do
    let l ← asBoolean (← evalExpr b left)
    if l = some true then .ok (.bool true)
    else do
      let r ← asBoolean (← evalExpr b right)
      if r = some true then .ok (.bool true)
      else .ok (if l = none ∨ r = none then .null else .bool false)
  | .isNull operand negated => do
    let v ← evalExpr b operand
    .ok (.bool (if negated then !decide (v = .null) else decide (v = .null)))
  | .compare op left right => do
    let l ← evalExpr b left
    let r ← evalExpr b right
    if l = .null ∨ r = .null then .ok .null
    else do
      let verdict ← compare op l r
      .ok (.bool verdict)
  | .in_ operand values => do
    let v ← evalExpr b operand
    if v = .null then .ok .null
    else evalIn b v false values

/-- The loop over the values of an `IN` list. -/
def evalIn (b : ConditionBindings) (operand : Value) (sawNull : Bool) : List Expr → Except InterpretError Value
  | [] => .ok (if sawNull then .null else .bool false)
  | item :: items => do
    let candidate ← evalExpr b item
    if candidate = .null then evalIn b operand true items
    else do
      if ← compare .eq operand candidate then .ok (.bool true)
      else evalIn b operand sawNull items

end

def interpretCondition (expr : Expr) (b : ConditionBindings) : Except InterpretError Bool := do
  let v ← asBoolean (← evalExpr b expr)
  .ok (v = some true)

/-! ## The same user and record -/

mutual

/-- The fields that a condition names. -/
def fields : Domain.Expr → List String
  | .recordField field => [field]
  | .not operand => fields operand
  | .isNull operand _ => fields operand
  | .inList operand values => fields operand ++ fieldsList values
  | .binary _ left right => fields left ++ fields right
  | .tree _ target => fields target
  | _ => []

def fieldsList : List Domain.Expr → List String
  | [] => []
  | v :: vs => fields v ++ fieldsList vs

end

mutual

/-- The condition reads the tenant's id. -/
def readsTenant : Domain.Expr → Bool
  | .userAttr attr => attr = "tenant_id"
  | .not operand => readsTenant operand
  | .isNull operand _ => readsTenant operand
  | .inList operand values => readsTenant operand || readsTenantList values
  | .binary _ left right => readsTenant left || readsTenant right
  | .tree _ target => readsTenant target
  | _ => false

def readsTenantList : List Domain.Expr → Bool
  | [] => false
  | v :: vs => readsTenant v || readsTenantList vs

end

/-- A field's value on both sides: an integer arrives in the shell as the nearest `number`. -/
inductive SameField : Raw → Option Domain.Raw → Prop where
  | null : SameField (.value .null) (some .null)
  | bool (b : Bool) : SameField (.value (.bool b)) (some (.bool b))
  | int (i : ℤ) : SameField (.value (.number (float64OfInt i))) (some (.int i))
  | string {s : JsString} {t : String} : SameText s t → SameField (.value (.string s)) (some (.string t))

/-- Both records have the same value for each field that the condition names. -/
def SameRecord (record : JsString → Raw) (record' : String → Option Domain.Raw) (e : Domain.Expr) : Prop :=
  ∀ s t, SameText s t → t ∈ fields e → SameField (record s) (record' t)

/-- Both know the same user, with an id and a contact. -/
structure SameUser (u : UserBindings) (caller : Domain.Caller) : Prop where
  id : SameText u.id caller.userID
  id_ne : caller.userID ≠ ""
  contactId : ∃ c, u.contactId = some c ∧ SameText c caller.contactID
  contactId_ne : caller.contactID ≠ ""
  tenantId : SameText u.tenantId caller.tenantID
  roles : ∀ s t, SameText s t → (s ∈ u.roles ↔ t ∈ caller.roles)
  permissions : ∀ has, caller.hasPermission = some has → ∀ s t, SameText s t → u.permissions s = has t

/-- No ordering is applied to two strings. -/
def NoStringOrder (parseTime : String → Option ℤ) (env : Domain.Env) (e : Domain.Expr) : Prop :=
  ∀ c ∈ Domain.comparisons e, ∀ x y, Domain.eval parseTime env c.2.1 = .ok (.string x) →
    Domain.eval parseTime env c.2.2 = .ok (.string y) → c.1 = .eq ∨ c.1 = .ne

/-- The values that differ on the two sides do not occur: integers that `float64` cannot hold, among the literals and
    the fields that are compared, and a tenant without an id, which is `NULL` for the engine. -/
structure Representable (env : Domain.Env) (e : Domain.Expr) : Prop where
  literals : Domain.ExactInts e
  record : ∀ c ∈ Domain.comparisons e, ∀ f, c.2.1 = .recordField f ∨ c.2.2 = .recordField f →
    ∀ i, env.record f = some (.int i) → float64OfInt i = i
  tenant : readsTenant e = true → env.tenantID ≠ ""

/-! ## The same values -/

/-- A value on both sides. Where it is going to be compared (`strict`), an integer is one that `float64` can hold. -/
inductive SameValue (strict : Prop) : Value → Domain.Value → Prop where
  | null : SameValue strict .null .null
  | bool (b : Bool) : SameValue strict (.bool b) (.bool b)
  | string {s : JsString} {t : String} : SameText s t → SameValue strict (.string s) (.string t)
  | int {i : ℤ} : (strict → float64OfInt i = i) → SameValue strict (.number (float64OfInt i)) (.int i)
  | float (q : ℚ) : SameValue strict (.number q) (.float q)

variable {strict : Prop} {v : Value} {v' : Domain.Value}

theorem SameValue.imp {lax : Prop} (h : SameValue strict v v') (hs : lax → strict) : SameValue lax v v' := by
  cases h with
  | null => exact .null
  | bool b => exact .bool b
  | string hst => exact .string hst
  | int hi => exact .int fun hl => hi (hs hl)
  | float q => exact .float q

theorem SameValue.null_iff (h : SameValue strict v v') : v = .null ↔ v' = .null := by
  cases h <;> simp

theorem SameValue.asBoolean (h : SameValue strict v v') {t t' : Option Bool}
    (ht : asBoolean v = .ok t) (ht' : Domain.asBool v' = .ok t') : t = t' := by
  cases h <;> cases ht <;> cases ht' <;> rfl

theorem holds_verdict (op : ComparisonOp) (x y : ℚ) : op.holds x y = op.engine.verdict (Domain.cmpCompare x y) := by
  rcases lt_trichotomy x y with h | h | h
  · have hne := ne_of_lt h
    have hgt := not_lt_of_gt h
    cases op <;> simp [ComparisonOp.holds, ComparisonOp.engine, Domain.BinOp.verdict, Domain.cmpCompare, h, hne, hgt]
  · subst h
    cases op <;> simp [ComparisonOp.holds, ComparisonOp.engine, Domain.BinOp.verdict, Domain.cmpCompare]
  have hne := ne_of_gt h
  have hlt := not_lt_of_gt h
  cases op <;> simp [ComparisonOp.holds, ComparisonOp.engine, Domain.BinOp.verdict, Domain.cmpCompare, h, hne, hlt]

theorem cmpCompare_cast (i j : ℤ) : Domain.cmpCompare (i : ℚ) (j : ℚ) = Domain.cmpCompare i j := by
  unfold Domain.cmpCompare
  simp only [Int.cast_lt, Int.cast_inj]

/-- Two texts are equal on both sides or on none. -/
theorem verdict_string {s s' : JsString} {t t' : String} (h : SameText s t) (h' : SameText s' t') {op : ComparisonOp}
    (hop : op = .eq ∨ op = .ne) : op.holds s s' = op.engine.verdict (Domain.cmpCompare t t') := by
  have heq : Domain.cmpCompare t t' = .eq ↔ s = s' :=
    (Domain.cmpCompare_eq String.lt_irrefl t t').trans (h.eq_iff h').symm
  rcases hop with rfl | rfl
  · show decide (s = s') = (Domain.cmpCompare t t' == .eq)
    by_cases hs : s = s'
    · rw [heq.mpr hs, decide_eq_true hs]
      rfl
    · rw [decide_eq_false hs, eq_comm, beq_eq_false_iff_ne]
      exact fun ho => hs (heq.mp ho)
  · show decide (s ≠ s') = (Domain.cmpCompare t t' != .eq)
    by_cases hs : s = s'
    · rw [heq.mpr hs, decide_eq_false (not_not.mpr hs)]
      rfl
    · rw [decide_eq_true hs, eq_comm, bne_iff_ne]
      exact fun ho => hs (heq.mp ho)

/-- **A comparison that both make has one verdict.** -/
theorem compare_same {parseTime : String → Option ℤ} {op : ComparisonOp} {w : Value} {w' : Domain.Value}
    (hv : SameValue True v v') (hw : SameValue True w w')
    (hscope : ∀ x y, v' = .string x → w' = .string y → op.engine = .eq ∨ op.engine = .ne) {r : Bool} {o : Ordering}
    (hr : compare op v w = .ok r) (ho : Domain.compare parseTime v' w' = .ok o) : r = op.engine.verdict o := by
  cases hv with
  | null => cases hw <;> cases hr
  | bool x =>
    cases hw with
    | bool y =>
      cases ho
      unfold compare at hr
      dsimp only at hr
      split at hr
      · rename_i hop
        cases hr
        subst hop
        cases x <;> cases y <;> rfl
      split at hr <;> cases hr
      rename_i hop
      subst hop
      cases x <;> cases y <;> rfl
    | _ => cases ho
  | @string s t hs =>
    cases hw with
    | @string s' t' hs' =>
      have hop : op = .eq ∨ op = .ne := by
        have hengine := hscope t t' rfl rfl
        cases op <;> simp [ComparisonOp.engine] at hengine ⊢
      cases ho
      unfold compare at hr
      dsimp only at hr
      rw [if_pos hop] at hr
      cases hr
      exact verdict_string hs hs' hop
    | null => cases ho
    | bool _ => cases ho
    | int _ => cases ho
    | float _ => cases ho
  | @int i hi =>
    cases hw with
    | @int j hj =>
      cases ho
      cases hr
      rw [hi trivial, hj trivial, holds_verdict, cmpCompare_cast]
    | float y =>
      cases ho
      cases hr
      rw [holds_verdict]
    | null => cases ho
    | bool _ => cases ho
    | string _ => cases ho
  | float x =>
    cases hw with
    | @int j hj =>
      cases ho
      cases hr
      rw [holds_verdict]
    | float y =>
      cases ho
      cases hr
      exact holds_verdict op x y
    | null => cases ho
    | bool _ => cases ho
    | string _ => cases ho

/-! ## Evaluation -/

/-- What both sides share when they evaluate a condition. -/
structure Scene (parseTime : String → Option ℤ) (b : ConditionBindings) (env : Domain.Env) (e : Domain.Expr) :
    Prop where
  record : SameRecord b.record env.record e
  order : NoStringOrder parseTime env e
  values : Representable env e

section

variable {parseTime : String → Option ℤ} {b : ConditionBindings} {env : Domain.Env} {d : Domain.Expr}

/-- A part of a condition shares it too. -/
theorem Scene.part {e : Domain.Expr} (h : Scene parseTime b env e) (hfields : fields d ⊆ fields e)
    (hcomparisons : Domain.comparisons d ⊆ Domain.comparisons e) (hnumerals : Domain.numerals d ⊆ Domain.numerals e)
    (htenant : readsTenant d = true → readsTenant e = true) : Scene parseTime b env d where
  record s t hst ht := h.record s t hst (hfields ht)
  order c hc := h.order c (hcomparisons hc)
  values :=
    { literals := fun text htext => h.values.literals text (hnumerals htext)
      record := fun c hc => h.values.record c (hcomparisons hc)
      tenant := fun hd => h.values.tenant (htenant hd) }

variable {op : Domain.BinOp}

theorem Scene.left {l r : Domain.Expr} (h : Scene parseTime b env (.binary op l r)) : Scene parseTime b env l := by
  refine h.part (subset_append_left _ _) ?_ (subset_append_left _ _) fun ht => ?_
  · intro c hc
    exact mem_append_left _ (mem_append_left _ hc)
  · show (readsTenant l || readsTenant r) = true
    rw [ht, Bool.true_or]

theorem Scene.right {l r : Domain.Expr} (h : Scene parseTime b env (.binary op l r)) : Scene parseTime b env r := by
  refine h.part (subset_append_right _ _) ?_ (subset_append_right _ _) fun ht => ?_
  · intro c hc
    exact mem_append_left _ (mem_append_right _ hc)
  · show (readsTenant l || readsTenant r) = true
    rw [ht, Bool.or_true]

variable {values : List Domain.Expr}

theorem Scene.operand (h : Scene parseTime b env (.inList d values)) : Scene parseTime b env d := by
  refine h.part (subset_append_left _ _) ?_ (subset_append_left _ _) fun ht => ?_
  · intro c hc
    exact mem_append_left _ (mem_append_left _ hc)
  · show (readsTenant d || readsTenantList values) = true
    rw [ht, Bool.true_or]

variable {v : Domain.Expr}

theorem mem_fieldsList {f : String} (hv : v ∈ values) (hf : f ∈ fields v) : f ∈ fieldsList values := by
  induction values with
  | nil => cases hv
  | cons w ws ih =>
    rw [fieldsList, mem_append]
    rcases mem_cons.mp hv with rfl | hv
    · exact .inl hf
    · exact .inr (ih hv)

theorem readsTenantList_of_mem (hv : v ∈ values) (ht : readsTenant v = true) : readsTenantList values = true := by
  induction values with
  | nil => cases hv
  | cons w ws ih =>
    rw [readsTenantList, Bool.or_eq_true]
    rcases mem_cons.mp hv with rfl | hv
    · exact .inl ht
    · exact .inr (ih hv)

theorem Scene.member (h : Scene parseTime b env (.inList d values)) (hv : v ∈ values) : Scene parseTime b env v := by
  refine h.part ?_ ?_ ?_ fun ht => ?_
  · intro f hf
    exact mem_append_right _ (mem_fieldsList hv hf)
  · intro c hc
    exact mem_append_left _ (mem_append_right _ (Domain.mem_comparisonsList hv hc))
  · intro text htext
    exact mem_append_right _ (mem_numeralsList.mpr ⟨v, hv, htext⟩)
  · show (readsTenant d || readsTenantList values) = true
    rw [readsTenantList_of_mem hv ht, Bool.or_true]

/-! ### Leaves -/

variable {v' : Domain.Value}

theorem literal_same {value : Literal} {value' : Domain.LitValue} (hsame : SameLiteral ReadsNumber value value')
    (hexact : Domain.ExactInts (.literal value')) (hv' : Domain.literalValue value' = .ok v') :
    SameValue strict value.value v' := by
  cases value with
  | null =>
    cases value' with
    | null => cases hv'; exact .null
    | _ => exact hsame.elim
  | bool x =>
    cases value' with
    | bool y =>
      cases hv'
      rw [show x = y from hsame]
      exact .bool y
    | _ => exact hsame.elim
  | string s =>
    cases value' with
    | string t => cases hv'; exact .string hsame
    | _ => exact hsame.elim
  | number q =>
    cases value' with
    | number text =>
      have hexact' := hexact text mem_cons_self
      rcases (sameNumber_iff hsame).mpr hexact' with hfloat | ⟨i, hint, rfl⟩
      · cases hfloat.symm.trans hv'
        exact .float q
      cases hint.symm.trans hv'
      -- the literal is not negative, and `float64` can hold it
      have hparse : parseInt64 text = some i := by
        unfold Domain.literalValue at hint
        dsimp only at hint
        split at hint
        · rename_i j hj
          cases hint
          exact hj
        · split at hint <;> cases hint
      have hround := hexact' i hparse
      have hnonneg : ¬ i < 0 := by
        unfold parseInt64 at hparse
        split at hparse <;> cases hparse
        omega
      have hexact : float64OfInt i = i := by
        rw [float64OfInt, if_neg hnonneg, hround]
        rfl
      rw [Literal.value, ← hexact]
      exact .int fun _ => hexact
    | _ => exact hsame.elim

variable {v : Value}

theorem user_same (huser : SameUser b.user env.toCaller) {attr : UserAttribute}
    (htenant : attr = .tenantId → env.tenantID ≠ "") (hv : evalExpr b (.user attr) = .ok v)
    (hv' : Domain.eval parseTime env (.userAttr attr.text) = .ok v') : SameValue strict v v' := by
  have hsome : ∀ {t : String}, t ≠ "" → Domain.orNull t = .string t := fun ht => if_neg ht
  cases attr with
  | id =>
    cases hv
    cases hv'
    rw [hsome huser.id_ne]
    exact .string huser.id
  | contactId =>
    obtain ⟨c, hc, hsame⟩ := huser.contactId
    rw [evalExpr, hc] at hv
    cases hv
    cases hv'
    rw [hsome huser.contactId_ne]
    exact .string hsame
  | tenantId =>
    cases hv
    cases hv'
    rw [hsome (htenant rfl)]
    exact .string huser.tenantId

theorem record_same {field : JsString} {f : String} (hsame : SameText field f)
    (hrecord : SameRecord b.record env.record (.recordField f))
    (hexact : strict → ∀ i, env.record f = some (.int i) → float64OfInt i = i)
    (hv : evalExpr b (.record field) = .ok v) (hv' : Domain.eval parseTime env (.recordField f) = .ok v') :
    SameValue strict v v' := by
  have hfield := hrecord field f hsame mem_cons_self
  rw [Domain.eval] at hv'
  split at hv'
  · cases hv'
  change scalar field (b.record field) = .ok v at hv
  revert hexact
  generalize b.record field = raw at hfield hv
  generalize env.record f = raw' at hfield hv'
  intro hexact
  cases hfield with
  | null => cases hv; cases hv'; exact .null
  | bool x => cases hv; cases hv'; exact .bool x
  | int i =>
    cases hv
    cases hv'
    exact .int fun hs => hexact hs i rfl
  | string hst => cases hv; cases hv'; exact .string hst

/-! ### One level -/

variable (parseTime b env) in
/-- Where both evaluate, they get the same value. -/
def SameResult (strict : Prop) (e : Expr) (e' : Domain.Expr) : Prop :=
  ∀ v v', evalExpr b e = .ok v → Domain.eval parseTime env e' = .ok v' → SameValue strict v v'

variable {e : Expr} {e' : Domain.Expr}

theorem SameResult.asBoolean (h : SameResult parseTime b env False e e')
    {t t' : Option Bool} (hv : evalExpr b e = .ok v) (ht : Shell.asBoolean v = .ok t)
    (hv' : Domain.eval parseTime env e' = .ok v') (ht' : Domain.asBool v' = .ok t') : t = t' :=
  (h v v' hv hv').asBoolean ht ht'

theorem SameResult.not (h : SameResult parseTime b env False e e') :
    SameResult parseTime b env strict (.not e) (.not e') := by
  intro v v' hv hv'
  obtain ⟨x, hx, hv⟩ := bind_eq_ok.mp hv
  obtain ⟨t, ht, hv⟩ := bind_eq_ok.mp hv
  obtain ⟨x', hx', hv'⟩ := bind_eq_ok.mp hv'
  obtain ⟨t', ht', hv'⟩ := bind_eq_ok.mp hv'
  obtain rfl := h.asBoolean hx ht hx' ht'
  cases hv
  cases t with
  | none => cases hv'; exact .null
  | some c => cases hv'; exact .bool _

/-- `and` and `or` of the shell: an operand with the value `settles` settles the operation. -/
def shortCircuit (b : ConditionBindings) (settles : Bool) (left right : Expr) : Except InterpretError Value := do
  let l ← asBoolean (← evalExpr b left)
  if l = some settles then .ok (.bool settles)
  else do
    let r ← asBoolean (← evalExpr b right)
    if r = some settles then .ok (.bool settles)
    else .ok (if l = none ∨ r = none then .null else .bool (!settles))

variable {l r : Expr} {l' r' : Domain.Expr}

section

variable (hl : SameResult parseTime b env False l l') (hr : SameResult parseTime b env False r r')

include hl hr

/-- The shell stops at a left operand that settles the operation; the engine has evaluated the right one, to no
    effect. -/
theorem shortCircuit_same {x' y' : Domain.Value} {t' u' : Option Bool}
    (hv : shortCircuit b (Domain.decisive op) l r = .ok v) (hx' : Domain.eval parseTime env l' = .ok x')
    (ht' : Domain.asBool x' = .ok t') (hy' : Domain.eval parseTime env r' = .ok y') (hu' : Domain.asBool y' = .ok u') :
    SameValue strict v (Domain.logical op t' u') := by
  obtain ⟨x, hx, hv⟩ := bind_eq_ok.mp hv
  obtain ⟨t, ht, hv⟩ := bind_eq_ok.mp hv
  obtain rfl := hl.asBoolean hx ht hx' ht'
  split at hv
  · rename_i hleft
    cases hv
    rw [Domain.logical, if_pos (.inl hleft)]
    exact .bool _
  rename_i hleft
  obtain ⟨y, hy, hv⟩ := bind_eq_ok.mp hv
  obtain ⟨u, hu, hv⟩ := bind_eq_ok.mp hv
  obtain rfl := hr.asBoolean hy hu hy' hu'
  split at hv
  · rename_i hright
    cases hv
    rw [Domain.logical, if_pos (.inr hright)]
    exact .bool _
  rename_i hright
  cases hv
  rw [Domain.logical, if_neg (not_or.mpr ⟨hleft, hright⟩)]
  split
  · exact .null
  · exact .bool _

theorem SameResult.and_or : SameResult parseTime b env strict (.and l r) (.binary .and l' r') ∧
    SameResult parseTime b env strict (.or l r) (.binary .or l' r') := by
  constructor
  all_goals
    intro v v' hv hv'
    obtain ⟨x', hx', hv'⟩ := bind_eq_ok.mp hv'
    obtain ⟨t', ht', hv'⟩ := bind_eq_ok.mp hv'
    obtain ⟨y', hy', hv'⟩ := bind_eq_ok.mp hv'
    obtain ⟨u', hu', hv'⟩ := bind_eq_ok.mp hv'
    cases hv'
    exact shortCircuit_same hl hr hv hx' ht' hy' hu'

end

theorem SameResult.isNull {negated : Bool} (h : SameResult parseTime b env False e e') :
    SameResult parseTime b env strict (.isNull e negated) (.isNull e' negated) := by
  intro v v' hv hv'
  obtain ⟨x, hx, hv⟩ := bind_eq_ok.mp hv
  obtain ⟨x', hx', hv'⟩ := bind_eq_ok.mp hv'
  cases hv
  cases hv'
  rw [decide_eq_decide.mpr (h x x' hx hx').null_iff]
  cases negated with
  | false =>
    rw [Bool.bne_false]
    exact .bool _
  | true =>
    rw [Bool.bne_true]
    exact .bool _

/-- The engine on a comparison. -/
theorem eval_compare {op : ComparisonOp} {l r : Domain.Expr} : Domain.eval parseTime env (.binary op.engine l r) = (do
      let x ← Domain.eval parseTime env l
      let y ← Domain.eval parseTime env r
      if x = .null ∨ y = .null then .ok .null
      else do
        let order ← Domain.compare parseTime x y
        .ok (.bool (op.engine.verdict order))) := by
  cases op <;> rfl

theorem SameResult.compare {op : ComparisonOp}
    (hl : SameResult parseTime b env True l l') (hr : SameResult parseTime b env True r r')
    (horder : ∀ x y, Domain.eval parseTime env l' = .ok (.string x) → Domain.eval parseTime env r' = .ok (.string y) →
      op.engine = .eq ∨ op.engine = .ne) :
    SameResult parseTime b env strict (.compare op l r) (.binary op.engine l' r') := by
  intro v v' hv hv'
  obtain ⟨x, hx, hv⟩ := bind_eq_ok.mp hv
  obtain ⟨y, hy, hv⟩ := bind_eq_ok.mp hv
  rw [eval_compare] at hv'
  obtain ⟨x', hx', hv'⟩ := bind_eq_ok.mp hv'
  obtain ⟨y', hy', hv'⟩ := bind_eq_ok.mp hv'
  have hsx := hl x x' hx hx'
  have hsy := hr y y' hy hy'
  by_cases hnull : x = .null ∨ y = .null
  · rw [if_pos hnull] at hv
    rw [if_pos (hnull.imp hsx.null_iff.mp hsy.null_iff.mp)] at hv'
    cases hv
    cases hv'
    exact .null
  rw [if_neg hnull] at hv
  rw [if_neg (fun h => hnull (h.imp hsx.null_iff.mpr hsy.null_iff.mpr))] at hv'
  obtain ⟨verdict, hverdict, hv⟩ := bind_eq_ok.mp hv
  obtain ⟨o, ho, hv'⟩ := bind_eq_ok.mp hv'
  cases hv
  cases hv'
  rw [compare_same hsx hsy (fun s t hs ht => horder s t (hs ▸ hx') (ht ▸ hy')) hverdict ho]
  exact .bool _

/-! ### `IN` -/

/-- A match stays one, whatever the members after it are. -/
theorem evalIn_of_matched {x : Domain.Value} {saw : Bool} {vs : List Domain.Expr} {v : Domain.Value}
    (h : Domain.evalIn parseTime env x saw true vs = .ok v) : v = .bool true := by
  induction vs generalizing saw with
  | nil =>
    cases h
    rfl
  | cons e vs ih =>
    obtain ⟨w, hw, h⟩ := bind_eq_ok.mp h
    split at h
    · exact ih h
    · obtain ⟨o, ho, h⟩ := bind_eq_ok.mp h
      exact ih h

/-- `NULL` is a member of no list, and missing from none. -/
theorem evalIn_null {vs : List Domain.Expr} {v : Domain.Value}
    (h : Domain.evalIn parseTime env .null true false vs = .ok v) : v = .null := by
  induction vs with
  | nil =>
    cases h
    rfl
  | cons e vs ih =>
    obtain ⟨w, hw, h⟩ := bind_eq_ok.mp h
    exact ih h

theorem evalIn_same {x : Value} {x' : Domain.Value} {vs : List Expr} {vs' : List Domain.Expr}
    (hx : SameValue (vs' ≠ []) x x') (hne : x ≠ .null) (hvs : SameList ReadsNumber vs vs')
    (hmem : ∀ v' ∈ vs', ∀ v, Same ReadsNumber v v' → SameResult parseTime b env True v v') {saw : Bool}
    (hv : evalIn b x saw vs = .ok v) (hv' : Domain.evalIn parseTime env x' saw false vs' = .ok v') :
    SameValue strict v v' := by
  have hne' : x' ≠ .null := fun h => hne (hx.null_iff.mpr h)
  induction vs' generalizing vs saw with
  | nil =>
    cases vs with
    | cons _ _ => exact hvs.elim
    | nil =>
      cases hv
      cases hv'
      cases saw
      · exact .bool false
      · exact .null
  | cons w' ws' ih =>
    cases vs with
    | nil => exact hvs.elim
    | cons w ws =>
      obtain ⟨y, hy, hv⟩ := bind_eq_ok.mp hv
      obtain ⟨y', hy', hv'⟩ := bind_eq_ok.mp hv'
      have hsame := hmem w' mem_cons_self w hvs.1 y y' hy hy'
      have hrest := fun u hu => hmem u (mem_cons_of_mem w' hu)
      have hx' : ∀ {p : Prop}, SameValue p x x' := hx.imp fun _ => cons_ne_nil _ _
      by_cases hnull : y = .null
      · rw [if_pos hnull] at hv
        rw [if_pos (.inr (hsame.null_iff.mp hnull))] at hv'
        exact ih hx' hvs.2 hrest hv hv'
      rw [if_neg hnull] at hv
      rw [if_neg (not_or.mpr ⟨hne', fun h => hnull (hsame.null_iff.mpr h)⟩)] at hv'
      obtain ⟨verdict, hverdict, hv⟩ := bind_eq_ok.mp hv
      obtain ⟨o, ho, hv'⟩ := bind_eq_ok.mp hv'
      have hagree : verdict = (o == .eq) := compare_same hx' hsame (fun _ _ _ _ => .inl rfl) hverdict ho
      rw [Bool.false_or, ← hagree] at hv'
      cases verdict with
      | false => exact ih hx' hvs.2 hrest hv hv'
      | true =>
        -- the shell stops here
        cases hv
        rw [evalIn_of_matched hv']
        exact .bool true

theorem SameResult.in_ {vs : List Expr} {vs' : List Domain.Expr}
    (h : SameResult parseTime b env (vs' ≠ []) e e') (hvs : SameList ReadsNumber vs vs')
    (hmem : ∀ v' ∈ vs', ∀ v, Same ReadsNumber v v' → SameResult parseTime b env True v v') :
    SameResult parseTime b env strict (.in_ e vs) (.inList e' vs') := by
  intro v v' hv hv'
  obtain ⟨x, hx, hv⟩ := bind_eq_ok.mp hv
  obtain ⟨x', hx', hv'⟩ := bind_eq_ok.mp hv'
  have hsame := h x x' hx hx'
  by_cases hnull : x = .null
  · rw [if_pos hnull] at hv
    cases hv
    have hnull' := hsame.null_iff.mp hnull
    rw [hnull', decide_eq_true rfl] at hv'
    rw [evalIn_null hv']
    exact .null
  · rw [if_neg hnull] at hv
    rw [decide_eq_false fun h => hnull (hsame.null_iff.mpr h)] at hv'
    exact evalIn_same hsame hnull hvs hmem hv hv'

/-! ### The whole condition -/

/-- Two trees that are the same have the same value wherever both sides evaluate them. -/
theorem sameResult_of_same (huser : SameUser b.user env.toCaller)
    (hsame : Same ReadsNumber e e') (hscene : Scene parseTime b env e')
    (hexact : strict → ∀ f, e' = .recordField f → ∀ i, env.record f = some (.int i) → float64OfInt i = i) :
    SameResult parseTime b env strict e e' := by
  -- an operand of a comparison is strict, one whose truth or presence is asked for is not
  induction e' generalizing e strict with
  | recordField f =>
    cases e with
    | record field => exact fun v v' hv hv' => record_same hsame hscene.record (fun hs => hexact hs f rfl) hv hv'
    | _ => exact hsame.elim
  | userAttr name =>
    cases e with
    | user attr =>
      obtain rfl : name = attr.text := hsame
      intro v v' hv hv'
      refine user_same huser (fun htenant => hscene.values.tenant ?_) hv hv'
      rw [htenant]
      rfl
    | _ => exact hsame.elim
  | tenantAttr _ => cases e <;> exact hsame.elim
  | roleCheck role' =>
    cases e with
    | role role =>
      intro v v' hv hv'
      cases hv
      cases hv'
      have hmem : role ∈ b.user.roles ↔ role' ∈ env.roles := huser.roles role role' hsame
      rw [contains_eq_mem, contains_eq_mem, decide_eq_decide.mpr hmem]
      exact .bool _
    | _ => exact hsame.elim
  | permCheck perm' =>
    cases e with
    | permission perm =>
      intro v v' hv hv'
      rw [Domain.eval] at hv'
      split at hv'
      · cases hv'
      rename_i has hhas
      cases hv
      cases hv'
      rw [huser.permissions has hhas perm perm' hsame]
      exact .bool _
    | _ => exact hsame.elim
  | literal value' =>
    cases e with
    | literal value =>
      intro v v' hv hv'
      cases hv
      exact literal_same hsame hscene.values.literals hv'
    | _ => exact hsame.elim
  | binary op' l' r' ihl ihr =>
    cases e with
    | compare op l r =>
      obtain ⟨rfl, hl, hr⟩ := hsame
      have hmem : (op.engine, l', r') ∈ Domain.comparisons (.binary op.engine l' r') := by
        have hcmp : op.engine.cmp?.isSome = true := by cases op <;> rfl
        rw [Domain.comparisons, if_pos hcmp]
        exact mem_append_right _ mem_cons_self
      have hcompared := hscene.values.record _ hmem
      exact (ihl hl hscene.left fun _ f hf => hcompared f (.inl hf)).compare
        (ihr hr hscene.right fun _ f hf => hcompared f (.inr hf)) (hscene.order _ hmem)
    | and l r =>
      obtain ⟨rfl, hl, hr⟩ := hsame
      exact (SameResult.and_or (ihl hl hscene.left False.elim) (ihr hr hscene.right False.elim)).1
    | or l r =>
      obtain ⟨rfl, hl, hr⟩ := hsame
      exact (SameResult.and_or (ihl hl hscene.left False.elim) (ihr hr hscene.right False.elim)).2
    | _ => exact hsame.elim
  | not operand ih =>
    cases e with
    | not e => exact (ih hsame (hscene.part (fun _ h => h) (fun _ h => h) (fun _ h => h) id) False.elim).not
    | _ => exact hsame.elim
  | isNull operand n ih =>
    cases e with
    | isNull e negated =>
      obtain ⟨rfl, he⟩ := hsame
      exact (ih he (hscene.part (fun _ h => h) (fun _ h => h) (fun _ h => h) id) False.elim).isNull
    | _ => exact hsame.elim
  | inList operand values ih ihs =>
    cases e with
    | in_ e vs =>
      obtain ⟨he, hvs⟩ := hsame
      have hcompared (v') (hv' : v' ∈ values) :=
        hscene.values.record (.eq, operand, v') (mem_append_right _ (mem_map_of_mem hv'))
      refine SameResult.in_ (ih he hscene.operand fun hne f hf => ?_) hvs fun v' hv' v hsame => ?_
      · obtain ⟨v', hv'⟩ := exists_mem_of_ne_nil values hne
        exact hcompared v' hv' f (.inl hf)
      · exact ihs v' hv' hsame (hscene.member hv') fun _ f hf => hcompared v' hv' f (.inr hf)
    | _ => exact hsame.elim
  | tree _ _ _ => cases e <;> exact hsame.elim

/-- **One verdict.** Where both evaluate a condition, with the same record and user and without ordering strings, they
    return the same verdict, as long as the values are ones that both represent. -/
theorem interpretCondition_eq_eval (src : String) {e : Expr} {e' : Domain.Expr}
    (hparse : parseCondition (js src) = .ok e) (hparse' : Domain.parse (goString src) = .ok e')
    (hrecord : SameRecord b.record env.record e') (huser : SameUser b.user env.toCaller)
    (horder : NoStringOrder parseTime env e') (hvalues : Representable env e') {r r' : Bool}
    (hr : interpretCondition e b = .ok r) (hr' : Domain.Eval parseTime e' env = .ok r') : r = r' := by
  obtain ⟨e'', hparse'', hsame⟩ := (parseCondition_follows src).of_ok hparse
  cases hparse'.symm.trans hparse''
  obtain ⟨v, hv, hr⟩ := bind_eq_ok.mp hr
  obtain ⟨t, ht, hr⟩ := bind_eq_ok.mp hr
  cases hr
  obtain ⟨v', hv', hr'⟩ := bind_eq_ok.mp hr'
  have hvalue := sameResult_of_same huser hsame ⟨hrecord, horder, hvalues⟩ False.elim v v' hv hv'
  cases hvalue with
  | null =>
    cases ht
    cases hr'
    rfl
  | bool c =>
    cases ht
    cases hr'
    cases r' <;> rfl
  | _ => cases ht

end

/-! ## Two scenes -/

/-- A user of the tenant `t`, and a record whose fields all hold one integer. -/
def bindings (tenant : String) (i : ℤ) : ConditionBindings where
  record _ := .value (.number (float64OfInt i))
  user := { id := js "u", contactId := some (js "c"), tenantId := js tenant,
            roles := [], permissions := fun _ => false }

/-- The same for the engine. -/
def bindingsEnv (tenant : String) (i : ℤ) : Domain.Env where
  userID := "u"
  contactID := "c"
  tenantID := tenant
  roles := []
  hasPermission := none
  record _ := some (.int i)

theorem sameUser_bindings (i : ℤ) : SameUser (bindings "t" i).user (bindingsEnv "t" i).toCaller where
  id := sameText_literal (by simp)
  id_ne := show "u" ≠ "" by decide
  contactId := ⟨_, rfl, sameText_literal (by simp)⟩
  contactId_ne := show "c" ≠ "" by decide
  tenantId := sameText_literal (by simp)
  roles _ _ _ := ⟨nofun, nofun⟩
  permissions := nofun

theorem sameRecord_bindings (tenant : String) (i : ℤ) (e : Domain.Expr) :
    SameRecord (bindings tenant i).record (bindingsEnv tenant i).record e :=
  fun _ _ _ _ => .int i

theorem interpretCondition_eq_eval_in : ∃ e e', parseCondition (js "NOT record.n IN (3, NULL)") = .ok e ∧
    Domain.parse (goString "NOT record.n IN (3, NULL)") = .ok e' ∧
    ∀ r r', interpretCondition e (bindings "t" 3) = .ok r →
      Domain.Eval (fun _ => none) e' (bindingsEnv "t" 3) = .ok r' → r = r' := by
  have htree : Domain.parse (goString "NOT record.n IN (3, NULL)") =
      .ok (.not (.inList (.recordField "n") [.literal (.number "3"), .literal .null])) := by decide +kernel
  obtain ⟨e, he⟩ := exists_of_isOk (js "NOT record.n IN (3, NULL)") (by decide +kernel)
  refine ⟨e, _, he, htree, fun r r' hr hr' => ?_⟩
  refine interpretCondition_eq_eval "NOT record.n IN (3, NULL)" he htree (sameRecord_bindings "t" 3 _)
    (sameUser_bindings 3) ?_ ⟨?_, ?_, ?_⟩ hr hr'
  · intro c hc x y hx hy
    obtain ⟨v, -, rfl⟩ : ∃ v ∈ [.literal (.number "3"), .literal .null], (Domain.BinOp.eq, _, v) = c := mem_map.mp hc
    exact .inl rfl
  · have hint : parseInt64 "3" = some 3 := by decide +kernel
    have hround : roundFloat64 3 = some 3 := by decide +kernel
    intro text htext i hi
    obtain rfl : text = "3" := by simpa [Domain.numerals, Domain.numeralsList] using htext
    cases hint.symm.trans hi
    exact hround
  · intro c _ f _ i hi
    cases hi
    decide +kernel
  · decide

/-- The literal rounds to the value of the record in the shell, and is another number in the engine. -/
theorem interpretCondition_ne_eval : ¬ ∀ (parseTime : String → Option ℤ) (src : String) (e : Expr) (e' : Domain.Expr)
    (b : ConditionBindings) (env : Domain.Env) (r r' : Bool), parseCondition (js src) = .ok e →
    Domain.parse (goString src) = .ok e' → SameRecord b.record env.record e' → SameUser b.user env.toCaller →
    NoStringOrder parseTime env e' → interpretCondition e b = .ok r → Domain.Eval parseTime e' env = .ok r' →
    r = r' := by
  intro hagree
  have htree : Domain.parse (goString "record.n = 9007199254740993") =
      .ok (.binary .eq (.recordField "n") (.literal (.number "9007199254740993"))) := by decide +kernel
  obtain ⟨e, he⟩ := exists_of_isOk (js "record.n = 9007199254740993") (by decide +kernel)
  have hshell : (parseCondition (js "record.n = 9007199254740993")).toOption.map
      (fun e => interpretCondition e (bindings "t" 9007199254740992)) = some (.ok true) := by decide +kernel
  rw [he] at hshell
  have hengine : Domain.Eval (fun _ => none)
      (.binary .eq (.recordField "n") (.literal (.number "9007199254740993"))) (bindingsEnv "t" 9007199254740992) =
      .ok false := by decide +kernel
  have horder : NoStringOrder (fun _ => none) (bindingsEnv "t" 9007199254740992)
      (.binary .eq (.recordField "n") (.literal (.number "9007199254740993"))) := by
    intro c hc _ _ _ _
    cases mem_singleton.mp hc
    exact .inl rfl
  have hshell' : interpretCondition e (bindings "t" 9007199254740992) = .ok true := Option.some.inj hshell
  have hsame : true = false := hagree (fun _ => none) "record.n = 9007199254740993" e
    (.binary .eq (.recordField "n") (.literal (.number "9007199254740993"))) (bindings "t" 9007199254740992)
    (bindingsEnv "t" 9007199254740992) true false he htree (sameRecord_bindings "t" 9007199254740992 _)
    (sameUser_bindings 9007199254740992) horder hshell' hengine
  cases hsame

-- A tenant without an id is `NULL` for the engine only.
example : (parseCondition (js "user.tenant_id IS NULL")).toOption.map
      (fun e => interpretCondition e (bindings "" 0)) = some (.ok false) ∧
    Domain.Eval (fun _ => none) (.isNull (.userAttr "tenant_id") false) (bindingsEnv "" 0) = .ok true := by
  decide +kernel

end GoErp.Shell
