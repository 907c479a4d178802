import GoErp.Domain.CompileRls
import GoErp.Domain.Eval
import GoErp.Lib.SqlEval

/-!
# `Domain.EvalSim` — `eval` against SQL, construct by construct

A compilation of conditions to SQL is checked against `eval` by a relation `R` between the values of the
two sides. `ValRel` asks of `R` what the connectives need: it keeps `NULL` and the truth values. Each
lemma then carries `R` through one construct; what a compilation does with its leaves, and how its
comparisons come out, is left to the compilation.
-/

namespace GoErp.Domain

open Lib Lib.Number List

def Value.ofTruth : Option Bool → Value
  | none => .null
  | some b => .bool b

/-- A relation between the values of `eval` and SQL values that keeps `NULL` and the truth values. -/
structure ValRel (R : Value → Sql.Val → Prop) : Prop where
  null_iff : ∀ {v w}, R v w → (v = .null ↔ w = .null)
  ofTruth : ∀ t, R (.ofTruth t) (.ofTruth t)
  asBool : ∀ {v w t}, R v w → asBool v = .ok t → w.truth = some t

section

variable {R : Value → Sql.Val → Prop} (hR : ValRel R) {parseTime : String → Option ℤ} {env : Env}
  {senv : Sql.Env}

/-- The expression's value is related to the term's. -/
def Simulates (R : Value → Sql.Val → Prop) (parseTime : String → Option ℤ) (env : Env) (senv : Sql.Env)
    (e : Expr) (t : Sql.Term) : Prop :=
  ∀ v, eval parseTime env e = .ok v → ∃ w, senv.eval t = some w ∧ R v w

/-- The two sides give one verdict on every comparison of `e` with `e'`. -/
def ComparesAlike (R : Value → Sql.Val → Prop) (parseTime : String → Option ℤ) (env : Env) (senv : Sql.Env)
    (op : BinOp) (c : Sql.CmpOp) (e e' : Expr) (t t' : Sql.Term) : Prop :=
  ∀ x y a b o, eval parseTime env e = .ok x → eval parseTime env e' = .ok y →
    senv.eval t = some a → senv.eval t' = some b → R x a → R y b →
    compare parseTime x y = .ok o → senv.compare c a b = some (some (op.verdict o))

include hR

variable {t : Sql.Term} {e : Expr}

theorem Simulates.not (h : Simulates R parseTime env senv e t) : Simulates R parseTime env senv (.not e) (.not t) := by
  intro v hv
  obtain ⟨x, hx, hv⟩ := bind_eq_ok.mp hv
  obtain ⟨b, hb, hv⟩ := bind_eq_ok.mp hv
  obtain ⟨w, hw, hrel⟩ := h x hx
  have htruth := hR.asBool hrel hb
  refine ⟨.ofTruth (Sql.not3 b), ?_, ?_⟩
  · rw [Sql.Env.eval, hw, Option.bind_some, htruth]
    rfl
  cases b with
  | none => cases hv; exact hR.ofTruth none
  | some b => cases hv; exact hR.ofTruth (some !b)

theorem Simulates.isNull (h : Simulates R parseTime env senv e t) (n : Bool) :
    Simulates R parseTime env senv (.isNull e n) (.isNull t n) := by
  intro v hv
  obtain ⟨x, hx, hv⟩ := bind_eq_ok.mp hv
  obtain ⟨w, hw, hrel⟩ := h x hx
  cases hv
  have hnull : decide (x = .null) = decide (w = .null) := by
    simp only [hR.null_iff hrel]
  refine ⟨.bool (decide (w = .null) != n), ?_, ?_⟩
  · rw [Sql.Env.eval, hw]
    rfl
  · rw [hnull]
    exact hR.ofTruth (some _)

omit hR in
theorem logical_and (l r : Option Bool) : logical .and l r = .ofTruth (Sql.and3 l r) := by
  rcases l with _ | _ | _ <;> rcases r with _ | _ | _ <;> rfl

omit hR in
theorem logical_or (l r : Option Bool) : logical .or l r = .ofTruth (Sql.or3 l r) := by
  rcases l with _ | _ | _ <;> rcases r with _ | _ | _ <;> rfl

variable {t' : Sql.Term} {op : BinOp} {e' : Expr}

/-- The operands of `AND` or `OR`, as truth values of both sides. -/
theorem Simulates.truths {v : Value}
    (h : Simulates R parseTime env senv e t) (h' : Simulates R parseTime env senv e' t') (hv : (do
      let l ← Domain.asBool (← eval parseTime env e)
      let r ← Domain.asBool (← eval parseTime env e')
      Except.ok (logical op l r)) = .ok v) :
    ∃ l r, (senv.eval t).bind Sql.Val.truth = some l ∧ (senv.eval t').bind Sql.Val.truth = some r ∧
      v = logical op l r := by
  obtain ⟨x, hx, hv⟩ := bind_eq_ok.mp hv
  obtain ⟨l, hl, hv⟩ := bind_eq_ok.mp hv
  obtain ⟨y, hy, hv⟩ := bind_eq_ok.mp hv
  obtain ⟨r, hr, hv⟩ := bind_eq_ok.mp hv
  obtain ⟨a, ha, hxa⟩ := h x hx
  obtain ⟨b, hb, hyb⟩ := h' y hy
  cases hv
  refine ⟨l, r, ?_, ?_, rfl⟩
  · rw [ha]
    exact hR.asBool hxa hl
  · rw [hb]
    exact hR.asBool hyb hr

theorem Simulates.and (h : Simulates R parseTime env senv e t) (h' : Simulates R parseTime env senv e' t') :
    Simulates R parseTime env senv (.binary .and e e') (.and t t') := by
  intro v hv
  obtain ⟨l, r, hl, hr, rfl⟩ := h.truths hR h' hv
  refine ⟨.ofTruth (Sql.and3 l r), ?_, ?_⟩
  · rw [Sql.Env.eval, hl, hr]
  · rw [logical_and]
    exact hR.ofTruth _

theorem Simulates.or (h : Simulates R parseTime env senv e t) (h' : Simulates R parseTime env senv e' t') :
    Simulates R parseTime env senv (.binary .or e e') (.or t t') := by
  intro v hv
  obtain ⟨l, r, hl, hr, rfl⟩ := h.truths hR h' hv
  refine ⟨.ofTruth (Sql.or3 l r), ?_, ?_⟩
  · rw [Sql.Env.eval, hl, hr]
  · rw [logical_or]
    exact hR.ofTruth _

omit hR in
theorem compare_null_left (c : Sql.CmpOp) (b : Sql.Val) : senv.compare c .null b = some none := by
  cases b <;> rfl

omit hR in
theorem compare_null_right (c : Sql.CmpOp) (a : Sql.Val) : senv.compare c a .null = some none := by
  cases a <;> rfl

omit hR in
/-- `evalBinary` on a comparison. -/
theorem eval_comparison {c : Sql.CmpOp} (hop : op.cmp? = some c) (l r : Expr) :
    eval parseTime env (.binary op l r) = (do
      let x ← eval parseTime env l
      let y ← eval parseTime env r
      if x = .null ∨ y = .null then .ok .null
      else do
        let order ← compare parseTime x y
        .ok (.bool (op.verdict order))) := by
  cases op <;> first | rfl | cases hop

theorem Simulates.cmp {c : Sql.CmpOp} (hop : op.cmp? = some c) (h : Simulates R parseTime env senv e t)
    (h' : Simulates R parseTime env senv e' t') (hcmp : ComparesAlike R parseTime env senv op c e e' t t') :
    Simulates R parseTime env senv (.binary op e e') (.cmp c t t') := by
  intro v hv
  rw [eval_comparison hop] at hv
  obtain ⟨x, hx, hv⟩ := bind_eq_ok.mp hv
  obtain ⟨y, hy, hv⟩ := bind_eq_ok.mp hv
  obtain ⟨a, ha, hxa⟩ := h x hx
  obtain ⟨b, hb, hyb⟩ := h' y hy
  have heval : senv.eval (.cmp c t t') = (senv.compare c a b).map .ofTruth := by
    rw [Sql.Env.eval, ha, hb]
  rw [heval]
  split at hv
  · -- a comparison with NULL is unknown on both sides
    rename_i hnull
    cases hv
    refine ⟨.null, ?_, hR.ofTruth none⟩
    rcases hnull with hnull | hnull
    · rw [(hR.null_iff hxa).mp hnull, compare_null_left]
      rfl
    · rw [(hR.null_iff hyb).mp hnull, compare_null_right]
      rfl
  · obtain ⟨o, ho, hv⟩ := bind_eq_ok.mp hv
    cases hv
    refine ⟨.bool (op.verdict o), ?_, hR.ofTruth (some _)⟩
    rw [hcmp x y a b o hx hy ha hb hxa hyb ho]
    rfl

/-- What `evalIn` has found among the members seen so far. -/
def inSoFar (sawNull matched : Bool) : Option Bool :=
  if matched then some true else if sawNull then none else some false

omit hR in
theorem or3_assoc (a b c : Option Bool) : Sql.or3 (Sql.or3 a b) c = Sql.or3 a (Sql.or3 b c) := by
  rcases a with _ | _ | _ <;> rcases b with _ | _ | _ <;> rcases c with _ | _ | _ <;> rfl

/-- The loop over the members computes the disjunction of the equalities. -/
theorem evalIn_sim {operand : Expr} {x : Value} {a : Sql.Val}
    (hx : eval parseTime env operand = .ok x) (ha : senv.eval t = some a) (hxa : R x a)
    {values : List Expr} {terms : List Sql.Term} (h : List.Forall₂ (fun e t' => Simulates R parseTime env senv e t' ∧
      ComparesAlike R parseTime env senv .eq .eq operand e t t') values terms)
    {sawNull matched : Bool} {r : Value} (hr : evalIn parseTime env x sawNull matched values = .ok r) :
    ∃ ws found, senv.evalList terms = some ws ∧ ws.length = values.length ∧
      senv.compareSome .eq a ws = some found ∧ r = .ofTruth (Sql.or3 (inSoFar sawNull matched) found) := by
  induction h generalizing sawNull matched with
  | nil =>
    cases hr
    refine ⟨[], some false, rfl, rfl, rfl, ?_⟩
    cases matched <;> cases sawNull <;> rfl
  | @cons e t' es ts hhead htail ih =>
    obtain ⟨hsim, halike⟩ := hhead
    obtain ⟨v, hv, hr⟩ := bind_eq_ok.mp hr
    obtain ⟨w, hw, hvw⟩ := hsim v hv
    -- what this member adds, and the rest of the loop from there
    have step : ∀ {sawNull' matched' : Bool} {one : Option Bool},
        senv.compare .eq a w = some one →
        inSoFar sawNull' matched' = Sql.or3 (inSoFar sawNull matched) one →
        evalIn parseTime env x sawNull' matched' es = .ok r →
        ∃ ws found, senv.evalList (t' :: ts) = some ws ∧ ws.length = (e :: es).length ∧
          senv.compareSome .eq a ws = some found ∧
          r = .ofTruth (Sql.or3 (inSoFar sawNull matched) found) := by
      intro sawNull' matched' one hone hfar hrest
      obtain ⟨ws, found, hws, hlen, hfound, hres⟩ := ih hrest
      refine ⟨w :: ws, Sql.or3 one found, ?_, by simp [hlen], ?_, ?_⟩
      · rw [Sql.Env.evalList, hw, hws]
      · rw [Sql.Env.compareSome, hone, hfound]
      · rw [hres, hfar, or3_assoc]
    split at hr
    · rename_i hnull
      have hone : senv.compare .eq a w = some none := by
        rcases hnull with hnull | hnull
        · rw [(hR.null_iff hxa).mp hnull, compare_null_left]
        · rw [(hR.null_iff hvw).mp hnull, compare_null_right]
      refine step hone ?_ hr
      cases matched <;> cases sawNull <;> rfl
    · obtain ⟨o, ho, hr⟩ := bind_eq_ok.mp hr
      refine step (halike x v a w o hx hv ha hw hxa hvw ho) ?_ hr
      cases o <;> cases matched <;> cases sawNull <;> rfl

omit hR in
theorem compareSome_null {ws : List Sql.Val} (h : ws ≠ []) : senv.compareSome .eq .null ws = some none := by
  induction ws with
  | nil => exact absurd rfl h
  | cons w ws ih =>
    cases ws with
    | nil => rw [Sql.Env.compareSome, compare_null_left]; rfl
    | cons w' ws' => rw [Sql.Env.compareSome, compare_null_left, ih (by simp)]; rfl

theorem Simulates.inList {operand : Expr} {values : List Expr} {terms : List Sql.Term}
    (hne : values ≠ []) (ho : Simulates R parseTime env senv operand t)
    (h : List.Forall₂ (fun e t' => Simulates R parseTime env senv e t' ∧
      ComparesAlike R parseTime env senv .eq .eq operand e t t') values terms) :
    Simulates R parseTime env senv (.inList operand values) (.inList t terms) := by
  intro v hv
  obtain ⟨x, hx, hv⟩ := bind_eq_ok.mp hv
  obtain ⟨a, ha, hxa⟩ := ho x hx
  obtain ⟨ws, found, hws, hlen, hfound, rfl⟩ := evalIn_sim hR hx ha hxa h hv
  have heval : senv.eval (.inList t terms) = some (.ofTruth found) := by
    rw [Sql.Env.eval, ha, hws]
    dsimp only
    rw [hfound]
    rfl
  refine ⟨_, heval, ?_⟩
  have hsame : Sql.or3 (inSoFar (decide (x = .null)) false) found = found := by
    by_cases hnull : x = .null
    · -- NULL IN a list with a member is unknown
      have hwne : ws ≠ [] := by
        rintro rfl
        exact hne (length_eq_zero_iff.mp hlen.symm)
      rw [(hR.null_iff hxa).mp hnull, compareSome_null hwne] at hfound
      cases hfound
      simp [hnull, inSoFar, Sql.or3]
    · rcases found with _ | _ | _ <;> simp [hnull, inSoFar, Sql.or3]
  rw [hsame]
  exact hR.ofTruth found

end

/-! ## The verdict of a comparison -/

theorem cmpCompare_eq {α : Type} [LT α] [DecidableEq α] [DecidableRel (α := α) (· < ·)]
    (hirr : ∀ x : α, ¬ x < x) (x y : α) : cmpCompare x y = .eq ↔ x = y := by
  unfold cmpCompare
  split
  · rename_i hlt
    constructor
    · intro h; cases h
    · rintro rfl; exact absurd hlt (hirr x)
  split
  · rename_i heq; simp [heq]
  · rename_i hne; simp [hne]

variable {op : BinOp} {c : Sql.CmpOp}

/-- The verdict of `=` and `!=` needs no more than equality. -/
theorem verdict_eq_ne (hop : op.cmp? = some c) (hs : op = .eq ∨ op = .ne) {o : Ordering} {lt eq gt : Bool}
    (ho : o = .eq ↔ eq = true) : op.verdict o = c.decide lt eq gt := by
  have hbeq : (o == .eq) = eq := by
    cases eq with
    | true => simp [ho]
    | false => simp [ho]
  rcases hs with rfl | rfl
  · cases hop
    exact hbeq
  cases hop
  show (!(o == .eq)) = !eq
  rw [hbeq]

theorem verdict_int (hop : op.cmp? = some c) (x y : ℤ) : op.verdict (cmpCompare x y) =
      c.decide (decide ((x : ℚ) < y)) (decide ((x : ℚ) = y)) (decide ((y : ℚ) < x)) := by
  rcases lt_trichotomy x y with h | h | h
  · have hne : x ≠ y := by omega
    have hgt : ¬ y < x := by omega
    cases op <;> cases hop <;> simp [cmpCompare, BinOp.verdict, Sql.CmpOp.decide, h, hne, hgt]
  · subst h
    cases op <;> cases hop <;> simp [cmpCompare, BinOp.verdict, Sql.CmpOp.decide]
  have hne : x ≠ y := by omega
  have hlt : ¬ x < y := by omega
  cases op <;> cases hop <;> simp [cmpCompare, BinOp.verdict, Sql.CmpOp.decide, h, hne, hlt]

theorem verdict_bool (hop : op.cmp? = some c) (x y : Bool) :
    op.verdict (compareBool x y) = c.decide (!x && y) (x == y) (x && !y) := by
  cases op <;> cases hop <;> cases x <;> cases y <;> rfl

/-! ## Comparisons of a condition -/

mutual

/-- The comparisons made by a condition, the members of an `IN` list as equalities. -/
def comparisons : Expr → List (BinOp × Expr × Expr)
  | .not operand => comparisons operand
  | .isNull operand _ => comparisons operand
  | .inList operand values =>
    comparisons operand ++ comparisonsList values ++ values.map fun v => (.eq, operand, v)
  | .binary op left right =>
    comparisons left ++ comparisons right ++ (if op.cmp?.isSome then [(op, left, right)] else [])
  | .tree _ target => comparisons target
  | _ => []

def comparisonsList : List Expr → List (BinOp × Expr × Expr)
  | [] => []
  | v :: vs => comparisons v ++ comparisonsList vs

end

variable {values : List Expr}

theorem mem_comparisonsList {v : Expr} {c : BinOp × Expr × Expr} (hv : v ∈ values) (hc : c ∈ comparisons v) :
    c ∈ comparisonsList values := by
  induction values with
  | nil => cases hv
  | cons w ws ih =>
    rw [comparisonsList, mem_append]
    rcases mem_cons.mp hv with rfl | hv
    · exact .inl hc
    · exact .inr (ih hv)

/-- `=` and `!=` between values of one type, the orderings between integers and between booleans. -/
def Comparable (op : BinOp) : Value → Value → Prop
  | .bool _, .bool _ => True
  | .int _, .int _ => True
  | .string _, .string _ => op = .eq ∨ op = .ne
  | .float _, .float _ => op = .eq ∨ op = .ne
  | .null, _ => True
  | _, .null => True
  | _, _ => False

instance (op : BinOp) (x y : Value) : Decidable (Comparable op x y) := by
  unfold Comparable
  split <;> infer_instance

/-- A value in memory and an SQL value of its type. -/
inductive Alike : Value → Sql.Val → Prop where
  | null : Alike .null .null
  | bool (b : Bool) : Alike (.bool b) (.bool b)
  | string (s : String) : Alike (.string s) (.text s)
  | int (i : ℤ) : Alike (.int i) (.num i)
  | float (f q : ℚ) : Alike (.float f) (.num q)

/-- Values that compare do so alike in SQL, where equal floats are equal numbers. -/
theorem compare_alike (senv : Sql.Env) (hop : op.cmp? = some c) {x y : Value} {a b : Sql.Val} {o : Ordering}
    (hx : Alike x a) (hy : Alike y b) (hscope : Comparable op x y)
    (hfloat : ∀ f g p q, x = .float f → y = .float g → a = .num p → b = .num q → (f = g ↔ p = q))
    (hcmp : compare parseTime x y = .ok o) : senv.compare c a b = some (some (op.verdict o)) := by
  cases hx <;> cases hy <;> cases hcmp
  case bool.bool u v =>
    rw [verdict_bool hop]
    rfl
  case string.string u v =>
    have ho : cmpCompare u v = .eq ↔ decide (u = v) = true := by
      rw [cmpCompare_eq String.lt_irrefl, decide_eq_true_eq]
    rw [verdict_eq_ne hop hscope ho]
    rfl
  case int.int i j =>
    rw [verdict_int hop]
    rfl
  case float.float f p g q =>
    have ho : cmpCompare f g = .eq ↔ decide (p = q) = true := by
      rw [cmpCompare_eq (fun z => lt_irrefl z), decide_eq_true_eq]
      exact hfloat f g p q rfl rfl rfl rfl
    rw [verdict_eq_ne hop hscope ho]
    rfl
  all_goals exact hscope.elim

/-- Every comparison of the condition is between values the database compares by the same rules. -/
def InScope (parseTime : String → Option ℤ) (env : Env) (e : Expr) : Prop :=
  ∀ c ∈ comparisons e, ∀ x y, eval parseTime env c.2.1 = .ok x → eval parseTime env c.2.2 = .ok y →
    Comparable c.1 x y

/-- `Comparable` on results; an error compares with nothing. -/
def comparableResults (op : BinOp) : Except EvalError Value → Except EvalError Value → Bool
  | .ok x, .ok y => decide (Comparable op x y)
  | _, _ => true

variable {env : Env} {e : Expr} {parseTime : String → Option ℤ}

theorem inScope_iff : (∀ c ∈ comparisons e,
      comparableResults c.1 (eval parseTime env c.2.1) (eval parseTime env c.2.2) = true) ↔
    InScope parseTime env e := by
  refine forall_congr' fun c => imp_congr_right fun _ => ?_
  cases eval parseTime env c.2.1 <;> cases eval parseTime env c.2.2 <;> simp [comparableResults]

instance (parseTime : String → Option ℤ) (env : Env) (e : Expr) : Decidable (InScope parseTime env e) :=
  decidable_of_iff _ inScope_iff

/-! ## Where a float comes from -/

/-- `NULL`, a boolean, a 64-bit integer or a text: the columns whose SQL value is the record's. -/
def Raw.Plain : Raw → Prop
  | .null => True
  | .bool _ => True
  | .string _ => True
  | .int i => -2 ^ 63 ≤ i ∧ i < 2 ^ 63
  | _ => False

/-- The SQL value of a plain column. -/
def Raw.sql : Raw → Option Sql.Val
  | .null => some .null
  | .bool b => some (.bool b)
  | .string s => some (.text s)
  | .int i => some (.num i)
  | _ => none

variable {v : Value}

/-- A numeral is an `int64` if it can be, a `float64` otherwise. -/
theorem literalValue_number {text : String} (h : literalValue (.number text) = .ok v) :
    (∃ i, parseInt64 text = some i ∧ v = .int i) ∨
      ∃ f, parseInt64 text = none ∧ parseFloat64 text = some f ∧ v = .float f := by
  rw [literalValue] at h
  cases hi : parseInt64 text with
  | some i =>
    rw [hi] at h
    cases h
    exact .inl ⟨i, rfl, rfl⟩
  | none =>
    rw [hi] at h
    cases hf : parseFloat64 text with
    | some f =>
      rw [hf] at h
      cases h
      exact .inr ⟨f, rfl, rfl, rfl⟩
    | none =>
      rw [hf] at h
      cases h

section

variable {parseTime : String → Option ℤ} {env : Env} {f : ℚ}

theorem evalIn_ok {x r : Value} {sawNull matched : Bool} (h : evalIn parseTime env x sawNull matched values = .ok r) :
    (∀ e ∈ values, ∃ v, eval parseTime env e = .ok v) ∧ ∃ t, r = .ofTruth t := by
  induction values generalizing sawNull matched with
  | nil =>
    cases h
    exact ⟨by simp, inSoFar sawNull matched, by cases matched <;> cases sawNull <;> rfl⟩
  | cons e es ih =>
    obtain ⟨v, hv, h⟩ := bind_eq_ok.mp h
    rw [forall_mem_cons, and_assoc]
    refine ⟨⟨v, hv⟩, ?_⟩
    split at h
    · exact ih h
    · obtain ⟨o, -, h⟩ := bind_eq_ok.mp h
      exact ih h

/-- A binary operation that returns has evaluated both sides, and returns a truth value. -/
theorem eval_binary_ok {op : BinOp} {l r : Expr} (h : eval parseTime env (.binary op l r) = .ok v) :
    (∃ x, eval parseTime env l = .ok x) ∧ (∃ y, eval parseTime env r = .ok y) ∧ ∃ t, v = .ofTruth t := by
  cases op with
  | like | ilike => cases h
  | and | or =>
    obtain ⟨x, hx, h⟩ := bind_eq_ok.mp h
    obtain ⟨a, -, h⟩ := bind_eq_ok.mp h
    obtain ⟨y, hy, h⟩ := bind_eq_ok.mp h
    obtain ⟨b, -, h⟩ := bind_eq_ok.mp h
    cases h
    refine ⟨⟨x, hx⟩, ⟨y, hy⟩, ?_⟩
    first | exact ⟨_, logical_and a b⟩ | exact ⟨_, logical_or a b⟩
  | _ =>
    obtain ⟨x, hx, h⟩ := bind_eq_ok.mp h
    obtain ⟨y, hy, h⟩ := bind_eq_ok.mp h
    refine ⟨⟨x, hx⟩, ⟨y, hy⟩, ?_⟩
    split at h
    · cases h
      exact ⟨none, rfl⟩
    · obtain ⟨o, -, h⟩ := bind_eq_ok.mp h
      cases h
      exact ⟨some _, rfl⟩

theorem Value.ofTruth_ne_float (t : Option Bool) : Value.ofTruth t ≠ .float f := by
  cases t <;> exact Value.noConfusion

/-- With plain columns, a `float64` can only come from a numeral. -/
theorem eval_float (hplain : ∀ name raw, env.record name = some raw → raw.Plain) {e : Expr}
    (h : eval parseTime env e = .ok (.float f)) :
    ∃ text, e = .literal (.number text) ∧ parseInt64 text = none ∧ parseFloat64 text = some f := by
  cases e with
  | recordField field =>
    rw [eval] at h
    split at h
    · cases h
    split at h
    · cases h
    rename_i raw hraw
    have hp := hplain field raw hraw
    cases raw <;> simp [normalize] at h <;> exact absurd hp (by simp [Raw.Plain])
  | userAttr attr =>
    unfold eval at h
    split at h
    all_goals simp only [orNull, Except.ok.injEq, reduceCtorEq] at h
    all_goals split at h <;> cases h
  | tenantAttr field => cases h
  | roleCheck role => cases h
  | permCheck perm =>
    rw [eval] at h
    split at h <;> cases h
  | literal value =>
    cases value with
    | number text =>
      rcases literalValue_number h with ⟨i, -, hv⟩ | ⟨g, hint, hfloat, hv⟩
      · cases hv
      · cases hv
        exact ⟨text, rfl, hint, hfloat⟩
    | _ => cases h
  | binary op l r =>
    obtain ⟨-, -, t, ht⟩ := eval_binary_ok h
    exact absurd ht.symm (Value.ofTruth_ne_float t)
  | not operand =>
    obtain ⟨b, -, h⟩ := bind_eq_ok.mp h
    cases b <;> cases h
  | isNull operand n =>
    obtain ⟨v, -, h⟩ := bind_eq_ok.mp h
    cases h
  | inList operand values =>
    obtain ⟨v, -, h⟩ := bind_eq_ok.mp h
    obtain ⟨-, t, ht⟩ := evalIn_ok h
    exact absurd ht.symm (Value.ofTruth_ne_float t)
  | tree op target => cases h

end

/-! ## Every numeral is read -/

/-- The numerals of a list whose every member evaluates. -/
theorem numeralsList_of {P : String → Prop} (h : ∀ v ∈ values, ∀ text ∈ numerals v, P text) :
    ∀ text ∈ numeralsList values, P text := by
  induction values with
  | nil => simp [numeralsList]
  | cons v vs ih =>
    intro text ht
    rw [numeralsList, mem_append] at ht
    rcases ht with ht | ht
    · exact h v (by simp) text ht
    · exact ih (fun w hw => h w (mem_cons_of_mem v hw)) text ht

/-- `eval` reads every numeral of a condition it accepts, whatever the operators decide. -/
theorem eval_numerals (h : eval parseTime env e = .ok v) : ∀ text ∈ numerals e, ∃ q, decimal? text = some q := by
  induction e generalizing v with
  | literal value =>
    cases value with
    | number text =>
      intro text' ht
      obtain rfl : text' = text := by simpa [numerals] using ht
      rcases literalValue_number h with ⟨i, hi, -⟩ | ⟨f, -, hf, -⟩
      · exact ⟨_, decimal?_of_parseInt64 hi⟩
      · obtain ⟨q, hq, -⟩ := Option.bind_eq_some_iff.mp hf
        exact ⟨q, hq⟩
    | _ => simp [numerals]
  | binary op l r ihl ihr =>
    obtain ⟨⟨x, hx⟩, ⟨y, hy⟩, -⟩ := eval_binary_ok h
    intro text ht
    rw [numerals, mem_append] at ht
    exact ht.elim (ihl hx text) (ihr hy text)
  | not operand ih | isNull operand n ih =>
    obtain ⟨x, hx, -⟩ := bind_eq_ok.mp h
    exact ih hx
  | inList operand values ih ihv =>
    obtain ⟨x, hx, h⟩ := bind_eq_ok.mp h
    intro text ht
    rw [numerals, mem_append] at ht
    rcases ht with ht | ht
    · exact ih hx text ht
    have hall : ∀ e ∈ values, ∀ text ∈ numerals e, ∃ q, decimal? text = some q := by
      intro e he
      obtain ⟨v, hv⟩ := (evalIn_ok h).1 e he
      exact ihv e he hv
    exact numeralsList_of hall text ht
  | tree op target _ => cases h
  | _ => simp [numerals]

/-- A verdict is the truth of the value; an unknown one is not true. -/
theorem Eval_ok {b : Bool} (h : Eval parseTime e env = .ok b) :
    ∃ t : Option Bool, eval parseTime env e = .ok (.ofTruth t) ∧ (b = true ↔ t = some true) := by
  obtain ⟨v, hv, h⟩ := bind_eq_ok.mp h
  cases v with
  | null =>
    cases h
    exact ⟨none, hv, by simp⟩
  | bool b' =>
    cases h
    exact ⟨some b, hv, by simp⟩
  | _ => cases h

end GoErp.Domain
