import GoErp.Domain.EvalSim

/-!
# `Domain.RlsAgree` — `Eval` against the policy text

The in-memory interpreter and the compiled policy give one verdict. `Rel` relates a value of `eval` to the SQL value
of the same expression; it holds of every condition (`eval_sim`).

A numeral that is no `int64` is a `float64` in memory and an exact `numeric` in SQL. Two such numerals `Collide` when
they are different numbers with the same `float64`; comparing them is the one place where the two sides part.
-/

namespace GoErp.Domain

open Lib Lib.Number

structure User where
  id : String
  contactID : String
  tenantID : String
  roles : List String
  permissions : List String

/-- The session variables `applyTenantScope` sets. -/
def applyTenantScope (u : User) : String → Option String
  | "app.current_user_id" => some u.id
  | "app.current_user_contact_id" => some u.contactID
  | "app.current_user_roles" => some (",".intercalate u.roles)
  | "app.current_user_permissions" => some (",".intercalate u.permissions)
  | _ => none

/-- A row and the user who reads it, on both sides: the record and user `Eval` is given, and the database
    session that `applyTenantScope` has set up for the same user. -/
structure Session where
  record : String → Option Raw
  user : User
  parseTime : String → Option ℤ
  /-- Postgres's cast to `uuid` and its collation -/
  uuid : String → Option String
  collate : String → String → Bool
  plain : ∀ name raw, record name = some raw → raw.Plain
  roles : ∀ r ∈ user.roles, r ≠ "" ∧ ',' ∉ r.toList
  permissions : ∀ p ∈ user.permissions, p ≠ "" ∧ ',' ∉ p.toList
  /-- the user's ids are uuids in the form Postgres prints -/
  canonical : ∀ s, s = user.id ∨ s = user.contactID → s ≠ "" → uuid s = some s

def Session.env (s : Session) : Env where
  record := s.record
  userID := s.user.id
  contactID := s.user.contactID
  tenantID := s.user.tenantID
  roles := s.user.roles
  hasPermission := some fun name => s.user.permissions.contains name

def Session.sqlEnv (s : Session) : Sql.Env where
  column name := (s.record name).bind Raw.sql
  param _ := none
  setting := applyTenantScope s.user
  uuid := s.uuid
  collate := s.collate

/-- Different numbers that are no `int64` and round to one `float64`. -/
def Collide (a b : String) : Prop :=
  parseInt64 a = none ∧ parseInt64 b = none ∧ decimal? a ≠ decimal? b ∧ parseFloat64 a = parseFloat64 b

instance (a b : String) : Decidable (Collide a b) := by
  unfold Collide
  infer_instance

/-- No comparison of the condition is between numerals that collide. -/
def Exact (e : Expr) : Prop :=
  ∀ c ∈ comparisons e, ∀ a b, c.2.1 = .literal (.number a) → c.2.2 = .literal (.number b) → ¬ Collide a b

/-- Two operands that are not numerals that collide. -/
def exactPair : Expr → Expr → Bool
  | .literal (.number a), .literal (.number b) => decide (¬ Collide a b)
  | _, _ => true

theorem exact_iff {e : Expr} : (∀ c ∈ comparisons e, exactPair c.2.1 c.2.2 = true) ↔ Exact e := by
  refine forall_congr' fun c => imp_congr_right fun _ => ?_
  constructor
  · intro h a b hl hr
    rw [hl, hr] at h
    simpa [exactPair] using h
  intro h
  unfold exactPair
  split
  · rename_i a b hl hr
    exact decide_eq_true (h a b hl hr)
  · rfl

instance (e : Expr) : Decidable (Exact e) := decidable_of_iff _ exact_iff

/-! ## Values on both sides -/

/-- A value in memory and the SQL value of the same expression. -/
inductive Rel : Value → Sql.Val → Prop where
  | null : Rel .null .null
  | bool (b : Bool) : Rel (.bool b) (.bool b)
  | string (s : String) : Rel (.string s) (.text s)
  | int (i : ℤ) : Rel (.int i) (.num i)
  | float {q f : ℚ} (h : roundFloat64 q = some f) : Rel (.float f) (.num q)

theorem rel_valRel : ValRel Rel where
  null_iff h := by cases h <;> simp
  ofTruth t := by
    cases t with
    | none => exact .null
    | some b => exact .bool b
  asBool h ht := by cases h <;> simp [asBool] at ht <;> simp [Sql.Val.truth, ht]

/-! ## Comparing two values -/

/-- Two comparable values have one verdict on both sides, unless two floats stand for different numbers. -/
theorem compare_sim {parseTime : String → Option ℤ} (env : Sql.Env) {op : BinOp} {c : Sql.CmpOp}
    (hop : op.cmp? = some c) {x y : Value} {a b : Sql.Val} {o : Ordering} (hx : Rel x a) (hy : Rel y b)
    (hscope : Comparable op x y) (hfloat : ∀ f p q, x = .float f → y = .float f → a = .num p → b = .num q → p = q)
    (hcmp : compare parseTime x y = .ok o) : env.compare c a b = some (some (op.verdict o)) := by
  have halike {v : Value} {w : Sql.Val} (h : Rel v w) : Alike v w := by cases h <;> constructor
  refine compare_alike env hop (halike hx) (halike hy) hscope ?_ hcmp
  rintro f g p q rfl rfl rfl rfl
  cases hx with
  | float hp =>
  cases hy with
  | float hq =>
  constructor
  · rintro rfl
    exact hfloat f p q rfl rfl rfl rfl
  · rintro rfl
    exact Option.some.inj (hp.symm.trans hq)

/-! ## Leaves -/

section

variable (s : Session)

theorem normalize_sim {raw : Raw} {v : Value} (hp : raw.Plain) (h : normalize raw = .ok v) :
    ∃ w, raw.sql = some w ∧ Rel v w := by
  cases raw with
  | null => cases h; exact ⟨_, rfl, .null⟩
  | bool b => cases h; exact ⟨_, rfl, .bool b⟩
  | string t => cases h; exact ⟨_, rfl, .string t⟩
  | int i => cases h; exact ⟨_, rfl, .int i⟩
  | _ => exact absurd hp (by simp [Raw.Plain])

theorem literal_sim {value : LitValue} {v : Value} (h : literalValue value = .ok v) :
    ∃ w, s.sqlEnv.eval (literalTerm value) = some w ∧ Rel v w := by
  cases value with
  | null => cases h; exact ⟨_, rfl, .null⟩
  | bool b => cases h; exact ⟨_, rfl, .bool b⟩
  | string t => cases h; exact ⟨_, rfl, .string t⟩
  | number text =>
    have hterm : s.sqlEnv.eval (literalTerm (.number text)) = (decimal? text).map .num := rfl
    rw [hterm]
    rcases literalValue_number h with ⟨i, hi, rfl⟩ | ⟨f, -, hf, rfl⟩
    · rw [decimal?_of_parseInt64 hi]
      exact ⟨.num i, rfl, .int i⟩
    obtain ⟨q, hq, hround⟩ := Option.bind_eq_some_iff.mp hf
    rw [hq]
    exact ⟨.num q, rfl, .float hround⟩

variable {setting : String}

theorem eval_settingTerm {text : String} (hset : applyTenantScope s.user setting = some text) :
    s.sqlEnv.eval (settingTerm setting) = some (.text text) :=
  (Sql.Env.eval_call_pair rfl rfl).trans (Sql.Env.apply_currentSetting hset)

/-- A user attribute: `NULLIF` makes the empty text `NULL`, the cast leaves a canonical uuid alone. -/
theorem attr_sim {text : String} (hset : applyTenantScope s.user setting = some text)
    (hid : text = s.user.id ∨ text = s.user.contactID) :
    ∃ w, s.sqlEnv.eval (attrTerm setting) = some w ∧ Rel (orNull text) w := by
  have hnullif : s.sqlEnv.eval (.call "nullif" [settingTerm setting, .str ""]) =
      some (if text = "" then .null else .text text) := by
    rw [Sql.Env.eval_call_pair (eval_settingTerm s hset) rfl, Sql.Env.apply_nullif]
    by_cases hempty : text = "" <;> simp [Sql.Env.compare, Sql.CmpOp.decide, hempty]
  have heval : s.sqlEnv.eval (attrTerm setting) =
      s.sqlEnv.cast "uuid" (if text = "" then .null else .text text) := by
    rw [attrTerm, Sql.Env.eval, hnullif]
    rfl
  rw [heval]
  by_cases hempty : text = ""
  · rw [orNull, if_pos hempty, if_pos hempty]
    exact ⟨.null, rfl, .null⟩
  have hcast : s.sqlEnv.cast "uuid" (.text text) = some (.text text) := by
    show (s.uuid text).map Sql.Val.text = _
    rw [s.canonical text hid hempty]
    rfl
  rw [orNull, if_neg hempty, if_neg hempty, hcast]
  exact ⟨.text text, rfl, .string text⟩

theorem compareSome_text (env : Sql.Env) (name : String) (xs : List String) :
    env.compareSome .eq (.text name) (xs.map .text) = some (some (xs.contains name)) := by
  induction xs with
  | nil => rfl
  | cons x xs ih =>
    simp only [List.map_cons, Sql.Env.compareSome, Sql.Env.compare, Sql.CmpOp.decide, ih,
      List.contains_cons]
    by_cases hx : name = x
    · simp [hx, Sql.or3]
    · cases hc : xs.contains name <;> simp [hx, Sql.or3]

/-- A role or permission check: the joined names split into the names again. -/
theorem members_sim {names : List String} (hset : applyTenantScope s.user setting = some (",".intercalate names))
    (hnames : ∀ n ∈ names, n ≠ "" ∧ ',' ∉ n.toList) (name : String) :
    s.sqlEnv.eval (.any .eq (.str name) (membersTerm setting)) = some (.bool (names.contains name)) := by
  have hsplit : Sql.splitText ',' (",".intercalate names) = names := Sql.splitText_intercalate hnames
  have hcoalesce : s.sqlEnv.eval (.call "coalesce" [settingTerm setting, .str ""]) =
      some (.text (",".intercalate names)) := by
    rw [Sql.Env.eval_call_pair (eval_settingTerm s hset) rfl, Sql.Env.apply_coalesce]
    rfl
  have hmembers : s.sqlEnv.eval (membersTerm setting) = some (.array names) := by
    rw [membersTerm, Sql.Env.eval_call_pair hcoalesce rfl, Sql.Env.apply_stringToArray, hsplit]
  have hname : s.sqlEnv.eval (.str name) = some (.text name) := rfl
  rw [Sql.Env.eval, hmembers, hname]
  dsimp only
  rw [compareSome_text]
  rfl

end

/-! ## The simulation -/

section

variable (s : Session)

theorem comparesAlike_rls {op : BinOp} {c : Sql.CmpOp} (hop : op.cmp? = some c) {left right : Expr}
    (hscope : ∀ x y, eval s.parseTime s.env left = .ok x → eval s.parseTime s.env right = .ok y →
      Comparable op x y)
    (hexact : ∀ a b, left = .literal (.number a) → right = .literal (.number b) → ¬ Collide a b) :
    ComparesAlike Rel s.parseTime s.env s.sqlEnv op c left right (rlsTerm left) (rlsTerm right) := by
  intro x y a b o hx hy ha hb hxa hyb hcmp
  refine compare_sim s.sqlEnv hop hxa hyb (hscope x y hx hy) ?_ hcmp
  -- two equal floats are two numerals that do not collide, so one number
  rintro f p q rfl rfl rfl rfl
  obtain ⟨l, rfl, hlint, hlfloat⟩ := eval_float s.plain hx
  obtain ⟨r, rfl, hrint, hrfloat⟩ := eval_float s.plain hy
  have hp : (decimal? l).map Sql.Val.num = some (.num p) := ha
  have hq : (decimal? r).map Sql.Val.num = some (.num q) := hb
  have hp' : decimal? l = some p := by simpa using hp
  have hq' : decimal? r = some q := by simpa using hq
  by_contra hne
  refine hexact l r rfl rfl ⟨hlint, hrint, ?_, hlfloat.trans hrfloat.symm⟩
  rw [hp', hq']
  exact fun h => hne (Option.some.inj h)

/-- The members of an `IN` list on both sides. -/
theorem forall₂_rlsTerms {P : Expr → Sql.Term → Prop} {values : List Expr}
    (h : ∀ v ∈ values, P v (rlsTerm v)) : List.Forall₂ P values (rlsTerms values) := by
  induction values with
  | nil => exact .nil
  | cons v vs ih => exact .cons (h v (by simp)) (ih fun w hw => h w (List.mem_cons_of_mem v hw))

/-- Every comparison of a condition has one verdict on both sides. -/
def Session.Agrees (s : Session) (e : Expr) : Prop :=
  ∀ c ∈ comparisons e, ∀ op, c.1.cmp? = some op →
    ComparesAlike Rel s.parseTime s.env s.sqlEnv c.1 op c.2.1 c.2.2 (rlsTerm c.2.1) (rlsTerm c.2.2)

/-- **The value of a condition is related to the value of its term.** -/
theorem eval_sim {e : Expr} {t : String} (hw : WellFormed e) (hc : compileRLS e = .ok t)
    (hagree : s.Agrees e) : Simulates Rel s.parseTime s.env s.sqlEnv e (rlsTerm e) := by
  induction e generalizing t with
  | recordField field =>
    intro v hv
    unfold compileRLS at hc
    rw [eval] at hv
    split at hc
    · cases hc
    rename_i hne
    rw [if_neg hne] at hv
    cases hraw : s.record field with
    | none =>
      simp [Session.env, hraw] at hv
    | some raw =>
      simp only [Session.env, hraw] at hv
      obtain ⟨w, hsql, hrel⟩ := normalize_sim (s.plain field raw hraw) hv
      refine ⟨w, ?_, hrel⟩
      show (s.record field).bind Raw.sql = some w
      rw [hraw]
      exact hsql
  | userAttr attr =>
    intro v hv
    unfold compileRLS at hc
    split at hc
    · cases hv
      exact attr_sim s rfl (.inl rfl)
    · cases hv
      exact attr_sim s rfl (.inr rfl)
    · cases hc
  | tenantAttr field => cases hc
  | roleCheck role =>
    intro v hv
    cases hv
    exact ⟨_, members_sim s rfl s.roles role, .bool _⟩
  | permCheck perm =>
    intro v hv
    cases hv
    exact ⟨_, members_sim s rfl s.permissions perm, .bool _⟩
  | literal value => exact fun v hv => literal_sim s hv
  | binary op left right ihl ihr =>
    obtain ⟨hop, l, r, hl, hr, -⟩ := compileRLS_binary hc
    cases hw with
    | binary hwl hwr =>
      have hleft := ihl hwl hl fun c hm => hagree c (by simp [comparisons, hm])
      have hright := ihr hwr hr fun c hm => hagree c (by simp [comparisons, hm])
      -- a comparison is where the two may differ; `hagree` says that this one does not
      have hnode : ∀ c, op.cmp? = some c → ComparesAlike Rel s.parseTime s.env s.sqlEnv op c left right
          (rlsTerm left) (rlsTerm right) := fun c hcmp =>
        hagree (op, left, right) (by simp [comparisons, hcmp]) c hcmp
      cases op with
      | like => exact absurd rfl hop.1
      | ilike => exact absurd rfl hop.2
      | and => exact hleft.and rel_valRel hright
      | or => exact hleft.or rel_valRel hright
      | eq | ne | lt | gt | le | ge => exact hleft.cmp rel_valRel rfl hright (hnode _ rfl)
  | not operand ih =>
    obtain ⟨x, hx, -⟩ := bind_eq_ok.mp hc
    cases hw with
    | not hwo => exact (ih hwo hx hagree).not rel_valRel
  | isNull operand n ih =>
    obtain ⟨x, hx, -⟩ := bind_eq_ok.mp hc
    cases hw with
    | isNull hwo => exact (ih hwo hx hagree).isNull rel_valRel n
  | inList operand values ih ihv =>
    obtain ⟨x, hx, hc⟩ := bind_eq_ok.mp hc
    obtain ⟨vs, hvs, -⟩ := bind_eq_ok.mp hc
    cases hw with
    | inList hwo hne hwv =>
      have hop := ih hwo hx fun c hm => hagree c (by simp [comparisons, hm])
      refine hop.inList rel_valRel hne (forall₂_rlsTerms fun v hv => ⟨?_, ?_⟩)
      · obtain ⟨tv, htv⟩ := compileRLSList_ok hvs v hv
        exact ihv v hv (hwv v hv) htv fun c hm =>
          hagree c (by simp [comparisons, mem_comparisonsList hv hm])
      · exact hagree (.eq, operand, v) (by simp [comparisons, hv]) .eq rfl
  | tree op target _ => cases hc

end

/-! ## One verdict -/

section

variable {s : Session} {e : Expr} {t : String} {b : Bool}

theorem Rel.ofTruth_true {t : Option Bool} {w : Sql.Val} (h : Rel (.ofTruth t) w) : t = some true ↔ w = .bool true := by
  rcases t with _ | _ | _ <;> cases h <;> simp

/-- The text of a condition that evaluates is read by SQL. -/
theorem read_of_eval {v : Value} (hw : WellFormed e) (hc : compileRLS e = .ok t)
    (hv : eval s.parseTime s.env e = .ok v) : Sql.read false t = some (rlsTerm e) := by
  refine (compileRLS_operand hw (fun text ht => ?_) hc).inside.read
  obtain ⟨q, hq⟩ := eval_numerals hv text ht
  exact .inr (decimal?_points hq)

theorem verdict_of_agrees (hw : WellFormed e) (hc : compileRLS e = .ok t)
    (he : Eval s.parseTime e s.env = .ok b) (hagree : s.Agrees e) : b = true ↔ s.sqlEnv.holds t := by
  obtain ⟨truth, hv, hb⟩ := Eval_ok he
  obtain ⟨w, hw', hrel⟩ := eval_sim s hw hc hagree _ hv
  rw [hb, hrel.ofTruth_true, Sql.Env.holds_iff (read_of_eval hw hc hv) hw']

/-- Two numerals that collide are equal in memory and different in SQL. -/
theorem collide_disagree {op : BinOp} {x y : String} (hop : op = .eq ∨ op = .ne) (hcol : Collide x y)
    (hw : WellFormed (.binary op (.literal (.number x)) (.literal (.number y))))
    (hc : compileRLS (.binary op (.literal (.number x)) (.literal (.number y))) = .ok t)
    (he : Eval s.parseTime (.binary op (.literal (.number x)) (.literal (.number y))) s.env = .ok b) :
    ¬ (b = true ↔ s.sqlEnv.holds t) := by
  obtain ⟨hx, hy, hne, hsame⟩ := hcol
  obtain ⟨truth, hv, hb⟩ := Eval_ok he
  obtain ⟨⟨u, hu⟩, ⟨v, hv'⟩, -⟩ := eval_binary_ok hv
  -- in memory both sides are the same float
  have hfloat : ∃ f, parseFloat64 x = some f ∧ parseFloat64 y = some f := by
    rcases literalValue_number hu with ⟨i, hi, -⟩ | ⟨f, -, hf, -⟩
    · rw [hx] at hi
      cases hi
    · exact ⟨f, hf, hsame ▸ hf⟩
  obtain ⟨f, hfx, hfy⟩ := hfloat
  obtain ⟨p, hp, -⟩ := Option.bind_eq_some_iff.mp hfx
  obtain ⟨q, hq, -⟩ := Option.bind_eq_some_iff.mp hfy
  have hpq : p ≠ q := by
    rintro rfl
    exact hne (hp.trans hq.symm)
  have hlit : ∀ text, parseInt64 text = none → parseFloat64 text = some f →
      eval s.parseTime s.env (.literal (.number text)) = .ok (.float f) := by
    intro text hi hf
    show literalValue (.number text) = _
    rw [literalValue, hi]
    rw [hf]
  have hmem : eval s.parseTime s.env (.binary op (.literal (.number x)) (.literal (.number y))) =
      .ok (.bool (op.verdict .eq)) := by
    obtain ⟨c, hc⟩ : ∃ c, op.cmp? = some c := by
      rcases hop with rfl | rfl
      · exact ⟨_, rfl⟩
      · exact ⟨_, rfl⟩
    rw [eval_comparison hc, hlit x hx hfx, hlit y hy hfy]
    simp [bind, Except.bind, compare, cmpCompare]
  -- in SQL they are two numbers
  have hnum : ∀ text r, decimal? text = some r → s.sqlEnv.eval (.num text) = some (.num r) := by
    intro text r hr
    rw [Sql.Env.eval, hr]
    rfl
  have hsql : s.sqlEnv.eval (rlsTerm (.binary op (.literal (.number x)) (.literal (.number y)))) =
      some (.bool !(op.verdict .eq)) := by
    rcases hop with rfl | rfl
    · show s.sqlEnv.eval (.cmp .eq (.num x) (.num y)) = _
      rw [Sql.Env.eval, hnum x p hp, hnum y q hq]
      simp [Sql.Env.compare, Sql.CmpOp.decide, hpq, Sql.Val.ofTruth, BinOp.verdict]
    show s.sqlEnv.eval (.cmp .ne (.num x) (.num y)) = _
    rw [Sql.Env.eval, hnum x p hp, hnum y q hq]
    simp [Sql.Env.compare, Sql.CmpOp.decide, hpq, Sql.Val.ofTruth, BinOp.verdict]
  rw [hb, Sql.Env.holds_iff (read_of_eval hw hc hv) hsql]
  rw [hmem] at hv
  cases htruth : truth with
  | none => rw [htruth] at hv; cases hv
  | some v =>
    rw [htruth] at hv
    cases hv
    cases op.verdict .eq <;> simp

/-- **`Eval` and the policy text agree.** Where `CompileToRLS` compiles a parsed condition and `Eval` returns, with
every comparison in scope and none between numerals that collide, `Eval` returns true exactly when the text is `TRUE`
in SQL; for a comparison of two numerals that is also necessary. -/
theorem eval_agrees_with_rls (s : Session) {src : String} {e : Expr} {t : String} {b : Bool}
    (hp : parse src = .ok e) (hc : CompileToRLS e = .ok t) (he : Eval s.parseTime e s.env = .ok b)
    (hscope : InScope s.parseTime s.env e) : (Exact e → (b = true ↔ s.sqlEnv.holds t)) ∧
      ∀ op x y, (op = .eq ∨ op = .ne) → e = .binary op (.literal (.number x)) (.literal (.number y)) →
        ((b = true ↔ s.sqlEnv.holds t) ↔ ¬ Collide x y) := by
  have hw := parse_wellFormed hp
  have hexact : Exact e → (b = true ↔ s.sqlEnv.holds t) := by
    intro hex
    refine verdict_of_agrees hw hc he fun c hm op hop => ?_
    exact comparesAlike_rls s hop (hscope c hm) (hex c hm)
  refine ⟨hexact, fun op x y hop heq => ⟨fun hagree hcol => ?_, fun hcol => hexact ?_⟩⟩
  · subst heq
    exact collide_disagree hop hcol hw hc he hagree
  subst heq
  intro c hm a b hl hr
  obtain rfl : c = (op, .literal (.number x), .literal (.number y)) := by
    rcases hop with rfl | rfl <;> simpa [comparisons, BinOp.cmp?] using hm
  cases hl
  cases hr
  exact hcol

/-- A salesperson looking at an order of their own. -/
def orderSession : Session where
  record
    | "owner" => some (.string "u1")
    | "amount" => some (.int 2)
    | _ => none
  user := { id := "u1", contactID := "", tenantID := "t1", roles := ["sales"], permissions := ["order.read"] }
  parseTime _ := none
  uuid := some
  collate _ _ := false
  plain := by
    intro name raw h
    split at h <;> cases h <;> simp [Raw.Plain]
  roles := by decide
  permissions := by decide
  canonical := fun _ _ _ => rfl

/-- Own orders, or orders whose amount is in a list with an unknown member. -/
def orderRule : Expr :=
  .binary .or (.binary .eq (.recordField "owner") (.userAttr "id"))
    (.inList (.recordField "amount") [.literal (.number "1"), .literal .null])

/-- `true OR NULL` is true on both sides. -/
theorem eval_agrees_with_rls_order :
    orderSession.sqlEnv.holds ("((\"owner\" = NULLIF(current_setting('app.current_user_id', true), '')::uuid)"
      ++ " OR (\"amount\" IN (1, NULL)))") := by
  have hp : parse "record.owner = current_user.id OR record.amount IN (1, NULL)" = .ok orderRule := by
    decide +kernel
  have hc : CompileToRLS orderRule =
      .ok ("((\"owner\" = NULLIF(current_setting('app.current_user_id', true), '')::uuid)"
        ++ " OR (\"amount\" IN (1, NULL)))") := by
    decide +kernel
  have he : Eval orderSession.parseTime orderRule orderSession.env = .ok true := by decide +kernel
  have hscope : InScope orderSession.parseTime orderSession.env orderRule := by decide +kernel
  have hexact : Exact orderRule := by decide +kernel
  exact ((eval_agrees_with_rls orderSession hp hc he hscope).1 hexact).mp rfl

/-- Two different numerals with one `float64`: equal to `Eval`, different to Postgres. -/
theorem eval_disagrees_on_floats :
    ¬ ∀ (s : Session) (src : String) (e : Expr) (t : String) (b : Bool), parse src = .ok e →
      CompileToRLS e = .ok t → Eval s.parseTime e s.env = .ok b → InScope s.parseTime s.env e →
      (b = true ↔ s.sqlEnv.holds t) := by
  intro h
  have hp : parse "0.1 = 0.10000000000000000001" =
      .ok (.binary .eq (.literal (.number "0.1")) (.literal (.number "0.10000000000000000001"))) := by
    decide +kernel
  have hc : CompileToRLS (.binary .eq (.literal (.number "0.1"))
      (.literal (.number "0.10000000000000000001"))) = .ok "(0.1 = 0.10000000000000000001)" := by
    decide +kernel
  have he : Eval orderSession.parseTime (.binary .eq (.literal (.number "0.1"))
      (.literal (.number "0.10000000000000000001"))) orderSession.env = .ok true := by
    decide +kernel
  have hcol : Collide "0.1" "0.10000000000000000001" := by decide +kernel
  exact collide_disagree (.inl rfl) hcol (parse_wellFormed hp) hc he
    (h _ _ _ _ _ hp hc he (by decide +kernel))

end

end GoErp.Domain
