import GoErp.Lib.SqlParse

/-!
# `Lib.SqlEval` — the value of an SQL expression

Three-valued semantics of the terms of `Lib.SqlParse` on one row. A comparison with `NULL` is `NULL`,
`AND`, `OR` and `NOT` follow Kleene, `x IN (…)` is the disjunction of its equalities and `x op ANY (array)`
that of the comparisons with the members. `none` is a type error, or a name that is not bound.
-/

namespace GoErp.Lib.Sql

open List

/-- The values of the fragments; `NULL` is one of them. -/
inductive Val where
  | null
  | bool (b : Bool)
  | num (q : ℚ)
  | text (s : String)
  | array (xs : List String)
  deriving DecidableEq

/-- What a row, a statement and a session bind. -/
structure Env where
  column : String → Option Val
  /-- positional parameters, counted from 1 -/
  param : Nat → Option Val
  /-- session variables -/
  setting : String → Option String
  /-- the cast of a text to `uuid`, shown as text again; `none` if the text is no uuid -/
  uuid : String → Option String
  /-- the strict order of texts under the database's collation -/
  collate : String → String → Bool

/-! ## Kleene's connectives, with `none` for unknown -/

/-- `NOT`, where `none` is unknown. -/
def not3 : Option Bool → Option Bool
  | some b => some (!b)
  | none => none

/-- `AND` of three truth values. -/
def and3 : Option Bool → Option Bool → Option Bool
  | some false, _ => some false
  | _, some false => some false
  | some true, some true => some true
  | _, _ => none

/-- `OR` of three truth values. -/
def or3 : Option Bool → Option Bool → Option Bool
  | some true, _ => some true
  | _, some true => some true
  | some false, some false => some false
  | _, _ => none

/-- A value used as a condition. -/
def Val.truth : Val → Option (Option Bool)
  | .null => some none
  | .bool b => some (some b)
  | _ => none

def Val.ofTruth : Option Bool → Val
  | none => .null
  | some b => .bool b

@[simp] theorem Val.truth_ofTruth (t : Option Bool) : (Val.ofTruth t).truth = some t := by
  cases t <;> rfl

/-! ## Comparison -/

/-- The verdict of an operator, from the strict order in both directions and equality. -/
def CmpOp.decide (op : CmpOp) (lt eq gt : Bool) : Bool :=
  match op with
  | .eq => eq
  | .ne => !eq
  | .lt => lt
  | .gt => gt
  | .le => lt || eq
  | .ge => gt || eq

/-- Comparison of two values; values of different types are not comparable. -/
def Env.compare (env : Env) (op : CmpOp) : Val → Val → Option (Option Bool)
  | .null, _ => some none
  | _, .null => some none
  | .bool a, .bool b => some (some (op.decide (!a && b) (a == b) (a && !b)))
  | .num a, .num b => some (some (op.decide (a < b) (a = b) (b < a)))
  | .text a, .text b => some (some (op.decide (env.collate a b) (a = b) (env.collate b a)))
  | _, _ => none

/-- `v op x` for some `x`: the disjunction of the comparisons. -/
def Env.compareSome (env : Env) (op : CmpOp) (v : Val) : List Val → Option (Option Bool)
  | [] => some (some false)
  | x :: xs =>
    match env.compare op v x, env.compareSome op v xs with
    | some a, some b => some (or3 a b)
    | _, _ => none

/-! ## Functions -/

/-- `string_to_array` with a separator of one character; the empty text has no members. -/
def splitText (sep : Char) (s : String) : List String :=
  if s.isEmpty then [] else (s.toList.splitOn sep).map String.ofList

/-- `COALESCE` -/
def firstNonNull : List Val → Val
  | [] => .null
  | .null :: vs => firstNonNull vs
  | v :: _ => v

/-- The functions that the fragments call. -/
def Env.apply (env : Env) (f : String) (args : List Val) : Option Val :=
  match f, args with
  | "nullif", [a, b] =>
    match env.compare .eq a b with
    | some (some true) => some .null
    | some _ => some a
    | none => none
  | "coalesce", vs => some (firstNonNull vs)
  | "current_setting", [.text name, .bool missingOk] =>
    match env.setting name with
    | some s => some (.text s)
    | none => if missingOk then some .null else none
  | "string_to_array", [.text s, .text sep] =>
    match sep.toList with
    | [c] => some (.array (splitText c s))
    | _ => none
  | "string_to_array", [.null, _] => some .null
  | _, _ => none

variable (env : Env)

theorem Env.apply_nullif (a b : Val) : env.apply "nullif" [a, b] =
      match env.compare .eq a b with
      | some (some true) => some .null
      | some _ => some a
      | none => none := rfl

theorem Env.apply_coalesce (a b : Val) : env.apply "coalesce" [a, b] = some (firstNonNull [a, b]) := rfl

variable {env : Env}

theorem Env.apply_currentSetting {name s : String} (h : env.setting name = some s) :
    env.apply "current_setting" [.text name, .bool true] = some (.text s) := by
  show (match env.setting name with
    | some s => some (Val.text s)
    | none => some Val.null) = _
  rw [h]

theorem Env.apply_stringToArray (s : String) :
    env.apply "string_to_array" [.text s, .text ","] = some (.array (splitText ',' s)) := rfl

/-- `::uuid`, the only cast. -/
def Env.cast (env : Env) (ty : String) : Val → Option Val
  | .null => some .null
  | .text s => if ty = "uuid" then (env.uuid s).map .text else none
  | _ => none

/-! ## Terms -/

mutual

/-- The value of a term; `none` is a run-time error. -/
def Env.eval (env : Env) : Term → Option Val
  | .col name => env.column name
  | .str s => some (.text s)
  | .num text => (Number.decimal? text).map .num
  | .bool b => some (.bool b)
  | .null => some .null
  | .param n => env.param n
  | .call f args => (env.evalList args).bind (env.apply f)
  | .cast e ty => (env.eval e).bind (env.cast ty)
  | .inList e vs =>
    match env.eval e, env.evalList vs with
    | some v, some xs => (env.compareSome .eq v xs).map .ofTruth
    | _, _ => none
  | .cmp op l r =>
    match env.eval l, env.eval r with
    | some a, some b => (env.compare op a b).map .ofTruth
    | _, _ => none
  | .any op l arr =>
    match env.eval l, env.eval arr with
    | some v, some (.array xs) => (env.compareSome op v (xs.map .text)).map .ofTruth
    | some _, some .null => some .null
    | _, _ => none
  | .isNull e neg => (env.eval e).map fun v => .bool (decide (v = .null) != neg)
  | .not e => ((env.eval e).bind Val.truth).map fun t => .ofTruth (not3 t)
  | .and l r =>
    match (env.eval l).bind Val.truth, (env.eval r).bind Val.truth with
    | some a, some b => some (.ofTruth (and3 a b))
    | _, _ => none
  | .or l r =>
    match (env.eval l).bind Val.truth, (env.eval r).bind Val.truth with
    | some a, some b => some (.ofTruth (or3 a b))
    | _, _ => none

def Env.evalList (env : Env) : List Term → Option (List Val)
  | [] => some []
  | t :: ts =>
    match env.eval t, env.evalList ts with
    | some v, some vs => some (v :: vs)
    | _, _ => none

end

theorem Env.eval_call (f : String) (args : List Term) :
    env.eval (.call f args) = (env.evalList args).bind (env.apply f) := by
  rw [Env.eval]

/-- A call of two arguments. -/
theorem Env.eval_call_pair {f : String} {l r : Term} {a b : Val} (hl : env.eval l = some a) (hr : env.eval r = some b) :
    env.eval (.call f [l, r]) = env.apply f [a, b] := by
  rw [Env.eval_call, Env.evalList, hl, Env.evalList, hr, Env.evalList]
  rfl

/-- The text denotes a condition that is `TRUE` on the row. -/
def Env.holds (env : Env) (t : String) : Prop := ∃ e, read false t = some e ∧ env.eval e = some (.bool true)

/-- A row meets a condition exactly if its value is `TRUE`. -/
theorem Env.holds_iff {t : String} {e : Term} {v : Val} (ht : read false t = some e) (hv : env.eval e = some v) :
    env.holds t ↔ v = .bool true := by
  constructor
  · rintro ⟨e', he', htrue⟩
    rw [ht] at he'
    cases he'
    rw [hv] at htrue
    exact Option.some.inj htrue
  · rintro rfl
    exact ⟨e, ht, hv⟩

/-! ## Chains of conditions -/

theorem or3_eq_true {a b : Option Bool} : or3 a b = some true ↔ a = some true ∨ b = some true := by
  rcases a with _ | _ | _ <;> rcases b with _ | _ | _ <;> decide

theorem and3_eq_true {a b : Option Bool} : and3 a b = some true ↔ a = some true ∧ b = some true := by
  rcases a with _ | _ | _ <;> rcases b with _ | _ | _ <;> decide

/-- The term is a condition with truth value `t`. -/
def Env.Truth (env : Env) (e : Term) (t : Option Bool) : Prop := env.eval e = some (.ofTruth t)

section

variable {env : Env} {e e' : Term} {t t' : Option Bool}

/-- The truth of a disjunction. -/
theorem Env.Truth.or (h : env.Truth e t) (h' : env.Truth e' t') : env.Truth (.or e e') (or3 t t') := by
  unfold Env.Truth at *
  simp [Env.eval, h, h']

/-- The truth of a conjunction. -/
theorem Env.Truth.and (h : env.Truth e t) (h' : env.Truth e' t') : env.Truth (.and e e') (and3 t t') := by
  unfold Env.Truth at *
  simp [Env.eval, h, h']

variable {items : List (Term × Option Bool)}

/-- A disjunction of conditions is `TRUE` when one of them is. -/
theorem Env.Truth.orChain (h : env.Truth e t) (hitems : ∀ i ∈ items, env.Truth i.1 i.2) :
    ∃ u, env.Truth ((items.map Prod.fst).foldl .or e) u ∧
      (u = some true ↔ t = some true ∨ ∃ i ∈ items, i.2 = some true) := by
  induction items generalizing e t with
  | nil => exact ⟨t, h, by simp⟩
  | cons i is ih =>
    obtain ⟨u, hu, hiff⟩ := ih (h.or (hitems i (by simp))) fun j hj => hitems j (mem_cons_of_mem i hj)
    refine ⟨u, hu, ?_⟩
    rw [hiff, or3_eq_true, exists_mem_cons_iff, or_assoc]

/-- A conjunction of conditions is `TRUE` when all of them are. -/
theorem Env.Truth.andChain (h : env.Truth e t) (hitems : ∀ i ∈ items, env.Truth i.1 i.2) :
    ∃ u, env.Truth ((items.map Prod.fst).foldl .and e) u ∧
      (u = some true ↔ t = some true ∧ ∀ i ∈ items, i.2 = some true) := by
  induction items generalizing e t with
  | nil => exact ⟨t, h, by simp⟩
  | cons i is ih =>
    obtain ⟨u, hu, hiff⟩ := ih (h.and (hitems i (by simp))) fun j hj => hitems j (mem_cons_of_mem i hj)
    refine ⟨u, hu, ?_⟩
    rw [hiff, and3_eq_true, forall_mem_cons, and_assoc]

end

/-! ## Membership in a joined list -/

/-- **A joined list splits into its members** when none is empty or holds the separator. -/
theorem splitText_intercalate {sep : Char} {xs : List String} (h : ∀ x ∈ xs, x ≠ "" ∧ sep ∉ x.toList) :
    splitText sep ((String.singleton sep).intercalate xs) = xs := by
  cases xs with
  | nil => rfl
  | cons x rest =>
    have hne : ((String.singleton sep).intercalate (x :: rest)).isEmpty = false := by
      have hx : x.toList ≠ [] := fun hnil => (h x (by simp)).1 (String.toList_eq_nil_iff.mp hnil)
      cases rest <;> simp [String.intercalate_cons_cons, String.toList_eq_nil_iff.not.mp hx]
    have hsep : ∀ l ∈ (x :: rest).map String.toList, sep ∉ l := by
      intro l hl
      obtain ⟨y, hy, rfl⟩ := mem_map.mp hl
      exact (h y hy).2
    unfold splitText
    rw [hne, String.toList_intercalate, String.toList_singleton,
      splitOn_intercalate sep hsep (by simp)]
    simp [List.map_map, Function.comp_def]

end GoErp.Lib.Sql
