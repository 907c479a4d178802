import Mathlib.Data.List.Basic
import GoErp.Domain.CompileSql

/-!
# `Domain.FilterAccepts` — which conditions the filter compiler takes

`CompileToFilter` documents that it accepts what `CompileToRLS` accepts. The two traverse the same tree and refuse
the same nodes, with one difference: a numeric literal is spliced into the text of a policy as it stands, but read as
a `float64` before it is bound to a filter. What decides is therefore whether every numeral is a `float64`
(`CompileToFilter_accepts_iff`).
-/

namespace GoErp.Domain

open Lib Lib.Number

/-- Every numeric literal is a `float64`. -/
def FloatNumerals (texts : List String) : Prop := ∀ text ∈ texts, (parseFloat64 text).isSome = true

theorem floatNumerals_append {xs ys : List String} :
    FloatNumerals (xs ++ ys) ↔ FloatNumerals xs ∧ FloatNumerals ys := List.forall_mem_append

section

variable {caller : Caller} {paramsBefore : Nat}

/-- A node without a numeral that compiles. -/
theorem succeeds_alone {x : Except CompileError (String × List Arg)} {r : String × List Arg} (h : x = .ok r) :
    Succeeds x ↔ FloatNumerals [] := ⟨fun _ => nofun, fun _ => ⟨r, h⟩⟩

theorem compileSqlLiteral_succeeds_iff (value : LitValue) (args : List Arg) :
    Succeeds (compileSqlLiteral paramsBefore value args) ↔ FloatNumerals (numerals (.literal value)) := by
  cases value with
  | null => exact succeeds_alone rfl
  | bool b => cases b <;> exact succeeds_alone rfl
  | string s => exact succeeds_alone rfl
  | number text =>
    show _ ↔ ∀ t ∈ [text], (parseFloat64 t).isSome = true
    rw [compileSqlLiteral, List.forall_mem_singleton]
    cases parseFloat64 text with
    | none => simp [Succeeds]
    | some f => simp [Succeeds]

theorem compileFilterList_succeeds_iff {values : List Expr} {ts : List String}
    (hall : ∀ v ∈ values, ∀ t, compileRLS v = .ok t → ∀ args,
      (Succeeds (compileFilter caller paramsBefore v args) ↔ FloatNumerals (numerals v)))
    (h : compileRLSList values = .ok ts) (args : List Arg) :
    Succeeds (compileFilterList caller paramsBefore values args) ↔ FloatNumerals (numeralsList values) := by
  induction values generalizing ts args with
  | nil => exact ⟨fun _ => nofun, fun _ => succeeds_ok _⟩
  | cons v vs ih =>
    obtain ⟨x, hx, h⟩ := bind_eq_ok.mp h
    obtain ⟨xs, hxs, -⟩ := bind_eq_ok.mp h
    have hvs : ∀ args, Succeeds (compileFilterList caller paramsBefore vs args) ↔ _ :=
      ih (fun w hw => hall w (List.mem_cons_of_mem v hw)) hxs
    rw [compileFilterList, numeralsList, floatNumerals_append]
    refine succeeds_bind (hall v List.mem_cons_self x hx args) fun r => ?_
    exact succeeds_bind_total (hvs r.2) fun _ => succeeds_ok _

theorem compileFilter_succeeds_iff (hperm : caller.hasPermission.isSome = true) {e : Expr} {t : String}
    (h : compileRLS e = .ok t) (args : List Arg) :
    Succeeds (compileFilter caller paramsBefore e args) ↔ FloatNumerals (numerals e) := by
  induction e generalizing t args with
  | recordField field =>
    rw [compileRLS] at h
    split at h
    · cases h
    · rename_i hne
      exact succeeds_alone (by rw [compileFilter, if_neg hne])
  | userAttr attr =>
    -- the policy compiler binds two of the attributes that the filter compiler binds
    unfold compileRLS at h
    split at h
    iterate 2 exact succeeds_alone rfl
    · cases h
  | tenantAttr field => cases h
  | roleCheck role => exact succeeds_alone rfl
  | permCheck perm =>
    obtain ⟨has, hhas⟩ := Option.isSome_iff_exists.mp hperm
    exact succeeds_alone (r := (sqlBool (has perm), args)) (by rw [compileFilter, hhas])
  | literal value => exact compileSqlLiteral_succeeds_iff value args
  | binary op left right ihl ihr =>
    obtain ⟨hop, l, r, hl, hr, -⟩ := compileRLS_binary h
    have hdo : compileFilter caller paramsBefore (.binary op left right) args = (do
        let l ← compileFilter caller paramsBefore left args
        let r ← compileFilter caller paramsBefore right l.2
        .ok ("(" ++ (l.1 ++ (" " ++ op.text ++ " ") ++ r.1) ++ ")", r.2)) := by
      cases op <;> first | rfl | simp at hop
    rw [hdo, numerals, floatNumerals_append]
    exact succeeds_bind (ihl hl args) fun x =>
      succeeds_bind_total (ihr hr x.2) fun _ => succeeds_ok _
  | not operand ih | isNull operand n ih =>
    obtain ⟨x, hx, -⟩ := bind_eq_ok.mp h
    exact succeeds_bind_total (ih hx args) fun _ => succeeds_ok _
  | inList operand values ih ihv =>
    obtain ⟨x, hx, h⟩ := bind_eq_ok.mp h
    obtain ⟨xs, hxs, -⟩ := bind_eq_ok.mp h
    rw [compileFilter, numerals, floatNumerals_append]
    refine succeeds_bind (ih hx args) fun r => ?_
    have hlist := compileFilterList_succeeds_iff (fun v hv t ht args => ihv v hv ht args) hxs r.2
    exact succeeds_bind_total hlist fun _ => succeeds_ok _
  | tree op target _ => cases h

/-- **A condition that compiles to a policy compiles to a filter exactly if its numerals are `float64`s**; parsed or
    not, and whatever parameters stand before it. -/
theorem CompileToFilter_accepts_iff (caller : Caller) (paramsBefore : Nat) {e : Expr} {sql : String}
    (hperm : caller.hasPermission.isSome = true) (hrls : CompileToRLS e = .ok sql) :
    Succeeds (CompileToFilter caller paramsBefore e) ↔ ∀ text ∈ numerals e, (parseFloat64 text).isSome = true :=
  compileFilter_succeeds_iff hperm hrls []

end

/-- A user without roles who holds every permission. -/
def anyUser : Caller where
  userID := "u1"
  contactID := ""
  tenantID := ""
  roles := []
  hasPermission := some fun _ => true

theorem CompileToFilter_accepts_threshold : parse "record.amount > 12.5" =
        .ok (.binary .gt (.recordField "amount") (.literal (.number "12.5"))) ∧
      Succeeds (CompileToFilter anyUser 3 (.binary .gt (.recordField "amount") (.literal (.number "12.5")))) := by
  have hp : parse "record.amount > 12.5" =
      .ok (.binary .gt (.recordField "amount") (.literal (.number "12.5"))) := by decide +kernel
  have hc : CompileToRLS (.binary .gt (.recordField "amount") (.literal (.number "12.5"))) =
      .ok "(\"amount\" > 12.5)" := by decide +kernel
  refine ⟨hp, (CompileToFilter_accepts_iff anyUser 3 rfl hc).mpr fun text htext => ?_⟩
  rw [show numerals (.binary .gt (.recordField "amount") (.literal (.number "12.5"))) = ["12.5"] from rfl,
    List.mem_singleton] at htext
  rw [htext]
  decide +kernel

/-- `record.version = 1.2.3`: the lexer takes the numeral with two points, and so does a policy. -/
theorem CompileToFilter_refuses_policy :
    ¬ ∀ (caller : Caller) (paramsBefore : Nat) (src : String) (e : Expr) (sql : String),
      caller.hasPermission.isSome = true → parse src = .ok e → CompileToRLS e = .ok sql →
      Succeeds (CompileToFilter caller paramsBefore e) := by
  intro h
  have hp : parse "record.version = 1.2.3" =
      .ok (.binary .eq (.recordField "version") (.literal (.number "1.2.3"))) := by decide +kernel
  have hc : CompileToRLS (.binary .eq (.recordField "version") (.literal (.number "1.2.3"))) =
      .ok "(\"version\" = 1.2.3)" := by decide +kernel
  obtain ⟨r, hr⟩ := h anyUser 0 _ _ _ rfl hp hc
  have hrefused : CompileToFilter anyUser 0 (.binary .eq (.recordField "version") (.literal (.number "1.2.3"))) =
      .error (.invalidNumber "1.2.3") := by decide +kernel
  cases hr

end GoErp.Domain
