import GoErp.Domain.CompileSql
import GoErp.Domain.ValidateEval
import GoErp.Lib.SqlCond

/-!
# `Authz.RowFilter` — the row filter against the record check

`rowFilter` (`wasm/host_authz_row_filter.go`) prints the policies of a permission as one SQL fragment with parameters;
`evaluateRecordPolicies` (`wasm/host_authz_policy.go`) counts the verdicts of the same policies on one record. Both
take the `OR` of the permissive policies, `AND` every restrictive one.

The fragments share one parameter list, numbered in the order the policies are compiled, and are regrouped afterwards
(`Compiled`).
-/

namespace GoErp.Authz

open Domain Lib Lib.Number List

/-! ## Policies -/

/-- What `resolve` finds for a policy: its parsed condition, its table and the columns it reads. -/
structure Target where
  expr : Expr
  table : String
  pkColumn : String
  columns : List String
  parsed : ∃ condition, parse condition = .ok expr
  columns_eq : columns = RecordFields expr

/-- A policy of the registry. `target` is the reason `Unresolved` gives, or what the policy resolves to. -/
structure Policy where
  name : String
  target : Except String Target
  restrictive : Bool
  /-- manifest validation asks for a name of three parts -/
  name_ne : name ≠ ""

inductive PolicyFailure where
  | unresolved (reason : String)
  | compile (err : CompileError)
  | eval (err : EvalError)
  deriving DecidableEq

inductive HostError where
  | policyEvaluation (policy : String) (failure : PolicyFailure)
  | resourceNotFound (resourceID : String)
  /-- the read fails, as it does on a column the table does not have -/
  | unavailable
  /-- `policies[0]` of no policies; the callers only ask about a permission with policies -/
  | indexOutOfRange
  deriving DecidableEq

/-- The target of a policy, or the error both handlers return for an unresolved one. -/
def Policy.resolved (p : Policy) : Except HostError Target :=
  match p.target with
  | .ok t => .ok t
  | .error reason => .error (.policyEvaluation p.name (.unresolved reason))

/-! ## `host.authz.row_filter` -/

/-- The loop's accumulators. -/
structure Fragments where
  permissive : List String
  restrictive : List String
  params : List Arg

def Fragments.add (f : Fragments) (restrictive : Bool) (sql : String) (args : List Arg) : Fragments :=
  if restrictive then { f with restrictive := f.restrictive ++ [sql], params := f.params ++ args }
  else { f with permissive := f.permissive ++ [sql], params := f.params ++ args }

/-- The loop over the policies that scope the permission. -/
def compilePolicies (caller : Caller) (table : String) : List Policy → Fragments → Except HostError Fragments
  | [], f => .ok f
  | p :: ps, f => do
    let t ← p.resolved
    if t.table ≠ table then
      compilePolicies caller table ps f
    else
      match CompileToFilter caller f.params.length t.expr with
      | .error err => .error (.policyEvaluation p.name (.compile err))
      | .ok (sql, args) => compilePolicies caller table ps (f.add p.restrictive sql args)

/-- The fragment and its parameters. -/
def combine (f : Fragments) : String × List Arg :=
  match f.permissive, f.restrictive with
  | [], [] => ("", [])
  | [], _ => ("AND FALSE", [])
  | permissive, restrictive =>
    let admitted := " OR ".intercalate permissive
    let admitted :=
      if restrictive = [] then admitted
      else " AND ".intercalate (("(" ++ admitted ++ ")") :: restrictive)
    ("AND (" ++ admitted ++ ")", f.params)

/-- `rowFilter`; `allowed` is the verdict of `evaluatePermissionCheck` on the permission. -/
def rowFilter (caller : Caller) (allowed : Bool) (policies : List Policy) (table : String) :
    Except HostError (String × List Arg) := do
  if allowed = false then
    .ok ("AND FALSE", [])
  else
    let f ← compilePolicies caller table policies ⟨[], [], []⟩
    .ok (combine f)

/-! ## `host.authz.check` on a record -/

/-- A stored row, by column. -/
abbrev Row := String → Option Raw

/-- The first loop: a policy that is not resolved is an error. -/
def resolveAll : List Policy → Except HostError (List (Policy × Target))
  | [] => .ok []
  | p :: ps => do
    let t ← p.resolved
    let rest ← resolveAll ps
    .ok ((p, t) :: rest)

/-- The columns `fetchPolicyRecord` selects: the primary key and those the policies read. -/
def policyColumns (pk : String) (resolved : List (Policy × Target)) : List String :=
  pk :: resolved.flatMap fun x => x.2.columns

/-- `fetchPolicyRecord`. `rows table pk` is the row of `table` whose column `pk` is `resourceID`. -/
def fetchPolicyRecord (rows : String → String → Option Row) (resourceID : String)
    (resolved : List (Policy × Target)) : Except HostError Row :=
  match resolved with
  | [] => .error .indexOutOfRange
  | (_, first) :: _ =>
    match rows first.table first.pkColumn with
    | none => .error (.resourceNotFound resourceID)
    | some row =>
      let columns := policyColumns first.pkColumn resolved
      if columns.all fun c => (row c).isSome then
        .ok fun c => if c ∈ columns then row c else none
      else .error .unavailable

/-- The loop's counters and the first restrictive policy that rejects. -/
structure Tally where
  permissive : Nat
  admitting : Nat
  rejectedBy : String

def Tally.add (t : Tally) (p : Policy) (ok : Bool) : Tally :=
  if p.restrictive ∧ ok = false ∧ t.rejectedBy = "" then { t with rejectedBy := p.name }
  else if p.restrictive = false then
    { t with permissive := t.permissive + 1, admitting := t.admitting + (if ok then 1 else 0) }
  else t

/-- The loop over the policies, with their conditions. -/
def tallyPolicies (parseTime : String → Option ℤ) (env : Env) : List (Policy × Target) → Tally →
    Except HostError Tally
  | [], t => .ok t
  | (p, target) :: ps, t =>
    match Eval parseTime target.expr env with
    | .error err => .error (.policyEvaluation p.name (.eval err))
    | .ok ok => tallyPolicies parseTime env ps (t.add p ok)

def firstPermissive (policies : List Policy) : String :=
  match policies.find? fun p => p.restrictive = false with
  | some p => p.name
  | none => ""

def verdict (policies : List Policy) (t : Tally) : Bool × String :=
  if t.rejectedBy ≠ "" then
    (false, "record is not admitted by restrictive policy \"" ++ t.rejectedBy ++ "\"")
  else if t.permissive = 0 then
    (false, "no permissive policy scopes this permission, so no record is admitted")
  else if t.admitting = 0 ∧ t.permissive = 1 then
    (false, "record is not admitted by policy \"" ++ firstPermissive policies ++ "\"")
  else if t.admitting = 0 then
    (false, "record is not admitted by any of the " ++ toString t.permissive ++
      " permissive policies that scope this permission")
  else (true, "")

/-- `evaluateRecordPolicies`: the verdict and its reason. -/
def evaluateRecordPolicies (parseTime : String → Option ℤ) (rows : String → String → Option Row)
    (caller : Caller) (policies : List Policy) (resourceID : String) : Except HostError (Bool × String) := do
  let resolved ← resolveAll policies
  let record ← fetchPolicyRecord rows resourceID resolved
  let t ← tallyPolicies parseTime { caller with record } resolved ⟨0, 0, ""⟩
  .ok (verdict policies t)

/-! ## What the loops compute -/

theorem Policy.resolved_ok {p : Policy} {t : Target} : p.resolved = .ok t ↔ p.target = .ok t := by
  unfold Policy.resolved
  cases p.target <;> simp

variable {policies : List Policy} {resolved : List (Policy × Target)}

theorem resolveAll_ok (h : resolveAll policies = .ok resolved) :
    resolved.map Prod.fst = policies ∧ ∀ x ∈ resolved, x.1.target = .ok x.2 := by
  induction policies generalizing resolved with
  | nil =>
    cases h
    exact ⟨rfl, by simp⟩
  | cons p ps ih =>
    obtain ⟨t, ht, h⟩ := bind_eq_ok.mp h
    obtain ⟨rest, hrest, h⟩ := bind_eq_ok.mp h
    cases h
    obtain ⟨hfst, hall⟩ := ih hrest
    exact ⟨by simp [hfst], forall_mem_cons.mpr ⟨Policy.resolved_ok.mp ht, hall⟩⟩

/-- The fragment of a policy, with its arguments at the places of `params` its placeholders name. -/
def Compiled (caller : Caller) (params : List Arg) (t : Target) (sql : String) : Prop :=
  ∃ before args, CompileToFilter caller before t.expr = .ok (sql, args) ∧
    ∀ i a, args[i]? = some a → params[before + i]? = some a

variable {caller : Caller}

/-- Parameters appended later do not move those a fragment refers to. -/
theorem compiled_of_compile {params args new : List Arg} {t : Target} {sql : String}
    (h : CompileToFilter caller params.length t.expr = .ok (sql, args)) :
    Compiled caller (params ++ args ++ new) t sql := by
  refine ⟨params.length, args, h, fun i a hi => ?_⟩
  have hlt := (List.getElem?_eq_some_iff.mp hi).1
  rw [append_assoc, getElem?_append_right (by omega), Nat.add_sub_cancel_left,
    getElem?_append_left hlt]
  exact hi

/-- A compiled policy with its fragment. -/
abbrev Fragment := (Policy × Target) × String

def isRestrictive (x : Fragment) : Bool := x.1.1.restrictive

variable {f : Fragments} {table : String}

/-- **What the compile loop leaves**: the fragments of all policies, split by kind, each still `Compiled`. -/
theorem compilePolicies_ok {g : Fragments} (hres : ∀ x ∈ resolved, x.1.target = .ok x.2 ∧ x.2.table = table)
    (h : compilePolicies caller table (resolved.map Prod.fst) f = .ok g) :
    ∃ frs : List Fragment, frs.map Prod.fst = resolved ∧
      g.permissive = f.permissive ++ (frs.filter (!isRestrictive ·)).map Prod.snd ∧
      g.restrictive = f.restrictive ++ (frs.filter isRestrictive).map Prod.snd ∧
      (∃ new, g.params = f.params ++ new) ∧ ∀ x ∈ frs, Compiled caller g.params x.1.2 x.2 := by
  induction resolved generalizing f with
  | nil =>
    cases h
    exact ⟨[], rfl, by simp, by simp, ⟨[], by simp⟩, by simp⟩
  | cons x xs ih =>
    obtain ⟨⟨htarget, htable⟩, hxs⟩ := forall_mem_cons.mp hres
    rw [map_cons, compilePolicies, Policy.resolved_ok.mpr htarget] at h
    simp only [Except.bind, bind, htable, ne_eq, not_true_eq_false, if_false] at h
    cases hcomp : CompileToFilter caller f.params.length x.2.expr with
    | error err =>
      rw [hcomp] at h
      cases h
    | ok out =>
      obtain ⟨sql, args⟩ := out
      rw [hcomp] at h
      obtain ⟨frs, hfst, hperm, hrestr, ⟨new, hnew⟩, hall⟩ := ih hxs h
      have hparams : (f.add x.1.restrictive sql args).params = f.params ++ args := by
        unfold Fragments.add
        split <;> rfl
      rw [hparams] at hnew
      refine ⟨(x, sql) :: frs, by simp [hfst], ?_, ?_, ⟨args ++ new, by simp [hnew]⟩, ?_⟩
      · rw [hperm]
        cases hx : x.1.restrictive <;> simp [Fragments.add, isRestrictive, hx]
      · rw [hrestr]
        cases hx : x.1.restrictive <;> simp [Fragments.add, isRestrictive, hx]
      refine forall_mem_cons.mpr ⟨?_, hall⟩
      rw [hnew]
      exact compiled_of_compile hcomp

/-- The policy's condition is true of the record. -/
def Passes (parseTime : String → Option ℤ) (env : Env) (x : Policy × Target) : Prop :=
  Eval parseTime x.2.expr env = .ok true

variable {parseTime : String → Option ℤ} {t : Tally}

/-- **What the tally leaves**: who rejected, and whether any policy is permissive and any of those admits. -/
theorem tallyPolicies_ok {env : Env} {t' : Tally} (h : tallyPolicies parseTime env resolved t = .ok t') :
    (∀ x ∈ resolved, ∃ b, Eval parseTime x.2.expr env = .ok b) ∧
      (t'.rejectedBy = "" ↔
        t.rejectedBy = "" ∧ ∀ x ∈ resolved, x.1.restrictive = true → Passes parseTime env x) ∧
      (t'.permissive = 0 ↔ t.permissive = 0 ∧ ∀ x ∈ resolved, x.1.restrictive = true) ∧
      (t'.admitting = 0 ↔
        t.admitting = 0 ∧ ∀ x ∈ resolved, x.1.restrictive = false → ¬ Passes parseTime env x) := by
  induction resolved generalizing t with
  | nil =>
    cases h
    simp
  | cons x xs ih =>
    rw [tallyPolicies] at h
    cases heval : Eval parseTime x.2.expr env with
    | error err =>
      rw [heval] at h
      cases h
    | ok b =>
      rw [heval] at h
      obtain ⟨hall, hrej, hperm, hadm⟩ := ih h
      have hpass : Passes parseTime env x ↔ b = true := by
        unfold Passes
        rw [heval, Except.ok.injEq]
      refine ⟨forall_mem_cons.mpr ⟨⟨b, heval⟩, hall⟩, hrej.trans ?_, hperm.trans ?_, hadm.trans ?_⟩
      all_goals
        rw [forall_mem_cons, ← and_assoc]
        refine and_congr_left fun _ => ?_
        cases hx : x.1.restrictive <;> cases b <;> by_cases ht : t.rejectedBy = "" <;>
          simp [Tally.add, hx, ht, hpass, x.1.name_ne]

theorem verdict_true : (verdict policies t).1 = true ↔ t.rejectedBy = "" ∧ t.permissive ≠ 0 ∧ t.admitting ≠ 0 := by
  unfold verdict
  split
  · simp_all
  split
  · simp_all
  split
  · simp_all
  · split <;> simp_all

/-- The rule of row-level security: some permissive policy passes and every restrictive one does. -/
def Admits (parseTime : String → Option ℤ) (env : Env) (resolved : List (Policy × Target)) : Prop :=
  (∃ x ∈ resolved, x.1.restrictive = false ∧ Passes parseTime env x) ∧
    ∀ x ∈ resolved, x.1.restrictive = true → Passes parseTime env x

/-- The check allows what row-level security admits. -/
theorem tally_admits {env : Env} (policies : List Policy)
    (h : tallyPolicies parseTime env resolved ⟨0, 0, ""⟩ = .ok t) :
    (verdict policies t).1 = true ↔ Admits parseTime env resolved := by
  obtain ⟨-, hrej, hperm, hadm⟩ := tallyPolicies_ok h
  have hsome : t.admitting ≠ 0 ↔ ∃ x ∈ resolved, x.1.restrictive = false ∧ Passes parseTime env x := by
    rw [ne_eq, hadm]
    push Not
    simp
  -- a policy that admits is permissive, so the test for no permissive policy adds nothing
  have hnone : t.admitting ≠ 0 → t.permissive ≠ 0 := by
    rw [hsome, ne_eq, hperm]
    rintro ⟨x, hx, hfalse, -⟩ ⟨-, hall⟩
    rw [hall x hx] at hfalse
    cases hfalse
  rw [verdict_true, hrej, Admits, ← hsome]
  tauto

/-! ## The fragment on a row -/

/-- The row at hand and the bound parameters. -/
def filterEnv (row : Row) (params : List Arg) (uuid : String → Option String)
    (collate : String → String → Bool) : Sql.Env where
  column name := (row name).bind Raw.sql
  param
    | 0 => none
    | n + 1 => params[n]?.map Arg.val
  setting _ := none
  uuid := uuid
  collate := collate

theorem cond_true (senv : Sql.Env) : Sql.Cond senv "TRUE" True :=
  ⟨.bool true, some true, ⟨[.word "true"], ⟨_, [], _, rfl, Sql.ends_word _, rfl⟩, fun n _ => Sql.reads_true n⟩,
    rfl, by simp⟩

theorem cond_false (senv : Sql.Env) : Sql.Cond senv "FALSE" False :=
  ⟨.bool false, some false,
    ⟨[.word "false"], ⟨_, [], _, rfl, Sql.ends_word _, rfl⟩, fun n _ => Sql.reads_false n⟩, rfl, by simp⟩

/-- A fragment after the module's own `WHERE` condition. -/
theorem holds_and_paren {senv : Sql.Env} {t : String} {P : Prop} (h : Sql.CondInside senv t P) :
    senv.holds ("TRUE " ++ ("AND (" ++ t ++ ")")) ↔ P := by
  have htext : "TRUE " ++ ("AND (" ++ t ++ ")") = "TRUE" ++ " AND " ++ ("(" ++ t ++ ")") := by
    rfl
  rw [htext, ((cond_true senv).and h.paren).holds_iff, true_and]

/-- **The printed combination is the rule of row-level security** on the fragments. -/
theorem combine_holds {senv : Sql.Env} {frs : List Fragment} {good : Fragment → Prop} (hne : frs ≠ [])
    (hperm : f.permissive = (frs.filter (!isRestrictive ·)).map Prod.snd)
    (hrestr : f.restrictive = (frs.filter isRestrictive).map Prod.snd)
    (hcond : f.permissive ≠ [] → ∀ x ∈ frs, Sql.Cond senv x.2 (good x)) : senv.holds ("TRUE " ++ (combine f).1) ↔
      (∃ x ∈ frs, isRestrictive x = false ∧ good x) ∧ ∀ x ∈ frs, isRestrictive x = true → good x := by
  have hsome : (∃ x ∈ frs, isRestrictive x = false ∧ good x) ↔
      ∃ x ∈ frs.filter (!isRestrictive ·), good x := by simp [and_assoc]
  have hevery : (∀ x ∈ frs, isRestrictive x = true → good x) ↔ ∀ x ∈ frs.filter isRestrictive, good x := by
    simp
  rw [hsome, hevery]
  cases hps : frs.filter (!isRestrictive ·) with
  | nil =>
    -- every policy is restrictive: the fragment is `AND FALSE`
    obtain ⟨r, rs, hrs⟩ : ∃ r rs, f.restrictive = r :: rs := by
      cases hfr : f.restrictive with
      | cons r rs => exact ⟨r, rs, rfl⟩
      | nil =>
        rw [hfr, eq_comm, map_eq_nil_iff] at hrestr
        refine absurd (eq_nil_iff_forall_not_mem.mpr fun x hx => ?_) hne
        cases hx' : isRestrictive x
        · have hmem : x ∈ frs.filter (!isRestrictive ·) := mem_filter.mpr ⟨hx, by rw [hx']; rfl⟩
          rw [hps] at hmem
          cases hmem
        have hmem : x ∈ frs.filter isRestrictive := mem_filter.mpr ⟨hx, hx'⟩
        rw [hrestr] at hmem
        cases hmem
    rw [hps, map_nil] at hperm
    have hsql : (combine f).1 = "AND FALSE" := by rw [combine, hperm, hrs]
    rw [hsql]
    have hfalse := (cond_true senv).and (cond_false senv)
    exact hfalse.holds_iff.trans (by simp)
  | cons p ps =>
    rw [hps] at hperm
    have hall := hcond (by simp [hperm])
    have hpermitted : ∀ x ∈ p :: ps, Sql.Cond senv x.2 (good x) := fun x hx =>
      hall x (mem_filter.mp (hps ▸ hx)).1
    have hadmitted := Sql.Cond.orJoin hpermitted
    cases hrs : frs.filter isRestrictive with
    | nil =>
      rw [hrs, map_nil] at hrestr
      have hsql : (combine f).1 = "AND (" ++ " OR ".intercalate ((p :: ps).map Prod.snd) ++ ")" := by
        rw [combine, hperm, hrestr]
        rfl
      rw [hsql, holds_and_paren hadmitted]
      simp
    | cons r rs =>
      rw [hrs] at hrestr
      have hrestricted : ∀ x ∈ r :: rs, Sql.Cond senv x.2 (good x) := fun x hx =>
        hall x (mem_filter.mp (hrs ▸ hx)).1
      have hsql : (combine f).1 = "AND (" ++ " AND ".intercalate
          (("(" ++ " OR ".intercalate ((p :: ps).map Prod.snd) ++ ")") :: (r :: rs).map Prod.snd) ++ ")" := by
        rw [combine, hperm, hrestr]
        rfl
      rw [hsql, holds_and_paren (hadmitted.paren.andJoin hrestricted)]

/-! ## One decision -/

/-- A stored record of the policies' table that both handlers are asked about. -/
structure Situation (parseTime : String → Option ℤ) (caller : Caller) (policies : List Policy)
    (table : String) where
  resolved : List (Policy × Target)
  resolves : resolveAll policies = .ok resolved
  resourceID : String
  rows : String → String → Option Row
  row : Row
  found : ∀ x ∈ resolved, x.2.table = table ∧ rows x.2.table x.2.pkColumn = some row
  plain : ∀ c raw, row c = some raw → raw.Plain
  record : Row
  fetched : fetchPolicyRecord rows resourceID resolved = .ok record
  scope : ∀ x ∈ resolved, InScope parseTime { caller with record } x.2.expr
  /-- Postgres's cast to `uuid` and its collation -/
  uuid : String → Option String
  collate : String → String → Bool

/-- The row filter and the record check give one verdict on every record. -/
def DecideAlike (parseTime : String → Option ℤ) (caller : Caller) (policies : List Policy) (table : String) : Prop :=
  ∀ (s : Situation parseTime caller policies table) (sql : String) (params : List Arg) (allowed : Bool)
    (reason : String), rowFilter caller true policies table = .ok (sql, params) →
    evaluateRecordPolicies parseTime s.rows caller policies s.resourceID = .ok (allowed, reason) →
    ((filterEnv s.row params s.uuid s.collate).holds ("TRUE " ++ sql) ↔ allowed = true)

/-- The check evaluates every policy, and allows what row-level security admits. -/
theorem Situation.check_ok (s : Situation parseTime caller policies table) {allowed : Bool} {reason : String}
    (h : evaluateRecordPolicies parseTime s.rows caller policies s.resourceID = .ok (allowed, reason)) :
    (∀ x ∈ s.resolved, ∃ b, Eval parseTime x.2.expr { caller with record := s.record } = .ok b) ∧
      (allowed = true ↔ Admits parseTime { caller with record := s.record } s.resolved) := by
  obtain ⟨resolved, hres, h⟩ := bind_eq_ok.mp h
  rw [s.resolves] at hres
  cases hres
  obtain ⟨record, hrec, h⟩ := bind_eq_ok.mp h
  rw [s.fetched] at hrec
  cases hrec
  obtain ⟨t, htally, h⟩ := bind_eq_ok.mp h
  have hadmits := tally_admits policies htally
  rw [Except.ok.inj h] at hadmits
  exact ⟨(tallyPolicies_ok htally).1, hadmits⟩

/-- The record holds columns of the row. -/
theorem fetchPolicyRecord_ok {rows : String → String → Option Row} {id : String} {row record : Row}
    (hrow : ∀ x ∈ resolved, rows x.2.table x.2.pkColumn = some row)
    (h : fetchPolicyRecord rows id resolved = .ok record) :
    resolved ≠ [] ∧ ∀ c raw, record c = some raw → row c = some raw := by
  cases resolved with
  | nil => cases h
  | cons x xs =>
    rw [fetchPolicyRecord, hrow x (by simp)] at h
    refine ⟨by simp, fun c raw hc => ?_⟩
    dsimp only at h
    split at h <;> cases h
    dsimp only at hc
    split at hc
    · exact hc
    · cases hc

/-- A compiled fragment is a condition that holds when the policy's condition is true of the record. -/
theorem Compiled.cond {record row : Row} {params : List Arg} {uuid : String → Option String}
    {collate : String → String → Bool} {x : Policy × Target} {sql : String} (h : Compiled caller params x.2 sql)
    (hrecord : ∀ c raw, record c = some raw → row c = some raw) (hplain : ∀ c raw, row c = some raw → raw.Plain)
    (hscope : InScope parseTime { caller with record } x.2.expr) (hexact : ExactInts x.2.expr) {b : Bool}
    (heval : Eval parseTime x.2.expr { caller with record } = .ok b) :
    Sql.Cond (filterEnv row params uuid collate) sql (Passes parseTime { caller with record } x) := by
  obtain ⟨before, args, hcomp, hargs⟩ := h
  obtain ⟨condition, hparse⟩ := x.2.parsed
  have hwell : CompilesWell parseTime { caller with record } before x.2.expr :=
    compileFilter_spec (parse_wellFormed hparse)
  obtain ⟨-, term, hop, hmeans⟩ := hwell hcomp
  obtain ⟨t, ht, hbt⟩ := Eval_ok heval
  have hbinds : Binds (filterEnv row params uuid collate) before args := by
    intro i a hi
    show (params[before + i]?).map Arg.val = some a.val
    rw [hargs i a hi]
    rfl
  have hholds : Holds (filterEnv row params uuid collate) record := by
    intro c raw hc
    have hrow := hrecord c raw hc
    refine ⟨hplain c raw hrow, ?_⟩
    show (row c).bind Raw.sql = raw.sql
    rw [hrow]
    rfl
  obtain ⟨w, hw, hsame⟩ := hmeans _ hbinds hholds hexact hscope _ ht
  refine ⟨term, t, hop, ?_, ?_⟩
  · have hval := same_valRel.ofTruth t
    rw [Same, hsame] at hval
    rw [Sql.Env.Truth, hw, hval]
  · rw [Passes, heval, Except.ok.injEq, hbt]

/-- The parameters go with every fragment that has placeholders. -/
theorem combine_params (h : f.permissive ≠ []) : (combine f).2 = f.params := by
  unfold combine
  split <;> simp_all

theorem decideAlike_of_exactInts (hexact : ∀ p ∈ policies, ∀ t, p.target = .ok t → ExactInts t.expr) :
    DecideAlike parseTime caller policies table := by
  intro s sql params allowed reason hfilter hcheck
  obtain ⟨hfst, htargets⟩ := resolveAll_ok s.resolves
  obtain ⟨hne, hrecord⟩ := fetchPolicyRecord_ok (fun x hx => (s.found x hx).2) s.fetched
  obtain ⟨hevals, hallowed⟩ := s.check_ok hcheck
  obtain ⟨f, hcompile, hfilter⟩ := bind_eq_ok.mp hfilter
  obtain ⟨rfl, rfl⟩ : (combine f).1 = sql ∧ (combine f).2 = params := by simp [Except.ok.inj hfilter]
  rw [← hfst] at hcompile
  obtain ⟨frs, hfrs, hperm, hrestr, -, hcompiled⟩ :=
    compilePolicies_ok (fun x hx => ⟨htargets x hx, (s.found x hx).1⟩) hcompile
  have hmem : ∀ x ∈ frs, x.1 ∈ s.resolved := fun x hx => hfrs ▸ mem_map_of_mem hx
  have hcond : f.permissive ≠ [] → ∀ x ∈ frs, Sql.Cond (filterEnv s.row (combine f).2 s.uuid s.collate) x.2
      (Passes parseTime { caller with record := s.record } x.1) := by
    intro hp x hx
    have hx' := hmem x hx
    obtain ⟨b, hb⟩ := hevals x.1 hx'
    have hpolicy : x.1.1 ∈ policies := hfst ▸ mem_map_of_mem hx'
    rw [combine_params hp]
    exact (hcompiled x hx).cond hrecord s.plain (s.scope x.1 hx')
      (hexact x.1.1 hpolicy x.1.2 (htargets x.1 hx')) hb
  have hfne : frs ≠ [] := by
    rintro rfl
    exact hne hfrs.symm
  rw [combine_holds hfne (by simpa using hperm) (by simpa using hrestr) hcond, hallowed, Admits, ← hfrs]
  simp [isRestrictive]

/-! ## An integer literal -/

/-- The condition `record.field = text`. -/
def fieldEquals (field text : String) : Expr := .binary .eq (.recordField field) (.literal (.number text))

/-- The filter of `record.field = text`: the literal is bound as a float. -/
theorem compile_fieldEquals (caller : Caller) {field text : String} {f : ℚ} (hne : field ≠ "")
    (hf : parseFloat64 text = some f) : CompileToFilter caller 0 (fieldEquals field text) =
      .ok ("(" ++ (quoteColumn field ++ (" " ++ BinOp.eq.text ++ " ") ++ (bindArg 0 (.float f) []).1) ++ ")",
        [.float f]) := by
  unfold CompileToFilter fieldEquals
  simp only [compileFilter, if_neg hne, compileSqlLiteral, hf]
  rfl

section

variable {parseTime : String → Option ℤ} {caller : Caller} {table field text : String} {p : Policy} {t : Target}
  {i : ℤ} {f : ℚ}

/-- The row whose columns all hold `i`. -/
def constRow (i : ℤ) : Row := fun _ => some (.int i)

theorem eval_fieldEquals (hne : field ≠ "") (hi : parseInt64 text = some i) {record : Row}
    (hrecord : record field = some (.int i)) :
    eval parseTime { caller with record } (.recordField field) = .ok (.int i) ∧
      eval parseTime { caller with record } (.literal (.number text)) = .ok (.int i) := by
  constructor
  · rw [eval, if_neg hne]
    simp only [hrecord]
    rfl
  · rw [eval, literalValue, hi]

theorem Eval_fieldEquals (hne : field ≠ "") (hi : parseInt64 text = some i) {record : Row}
    (hrecord : record field = some (.int i)) :
    Eval parseTime (fieldEquals field text) { caller with record } = .ok true := by
  obtain ⟨hfield, hlit⟩ := eval_fieldEquals hne hi hrecord
  have heval : eval parseTime { caller with record } (fieldEquals field text) = .ok (.bool true) := by
    rw [fieldEquals, eval_comparison rfl, hfield, hlit]
    simp [bind, Except.bind, Domain.compare, cmpCompare, BinOp.verdict]
  rw [Eval, heval]
  rfl

/-- The record fetched from a constant row. -/
def constRecord (i : ℤ) (p : Policy) (t : Target) : Row :=
  fun c => if c ∈ policyColumns t.pkColumn [(p, t)] then constRow i c else none

theorem constRecord_field (i : ℤ) (p : Policy) (hexpr : t.expr = fieldEquals field text) (hne : field ≠ "") :
    constRecord i p t field = some (.int i) := by
  have hmem : field ∈ t.columns := by
    rw [t.columns_eq, mem_recordFields, hexpr]
    simp [fieldEquals, collectRecordFields, hne]
  exact if_pos (by simp [policyColumns, hmem])

theorem parseInt64_range (hi : parseInt64 text = some i) : -2 ^ 63 ≤ i ∧ i < 2 ^ 63 := by
  unfold parseInt64 at hi
  split at hi <;> cases hi
  omega

/-- A record whose field is the literal. -/
def constSituation (p : Policy) (t : Target) (i : ℤ) (htarget : p.target = .ok t)
    (hexpr : t.expr = fieldEquals field text) (hne : field ≠ "") (hi : parseInt64 text = some i) :
    Situation parseTime caller [p] t.table where
  resolved := [(p, t)]
  resolves := by simp [resolveAll, Policy.resolved_ok.mpr htarget, bind, Except.bind]
  resourceID := ""
  rows _ _ := some (constRow i)
  row := constRow i
  found := by simp
  plain c raw h := by
    cases h
    exact parseInt64_range hi
  record := constRecord i p t
  fetched := by
    simp only [fetchPolicyRecord, constRow, Option.isSome_some, all_eq_true, implies_true, if_true]
    rfl
  scope := by
    intro x hx
    obtain rfl := mem_singleton.mp hx
    obtain ⟨hfield, hlit⟩ := eval_fieldEquals hne hi (constRecord_field i p hexpr hne)
    intro c hc a b ha hb
    rw [hexpr] at hc
    obtain rfl : c = (.eq, .recordField field, .literal (.number text)) := by
      simpa [fieldEquals, comparisons, BinOp.cmp?] using hc
    rw [hfield] at ha
    rw [hlit] at hb
    cases ha
    cases hb
    trivial
  uuid _ := none
  collate _ _ := false

/-- On that record the check allows. -/
theorem check_fieldEquals (htarget : p.target = .ok t) (hperm : p.restrictive = false)
    (hexpr : t.expr = fieldEquals field text) (hne : field ≠ "") (hi : parseInt64 text = some i) :
    evaluateRecordPolicies parseTime (fun _ _ => some (constRow i)) caller [p] "" = .ok (true, "") := by
  let s : Situation parseTime caller [p] t.table := constSituation p t i htarget hexpr hne hi
  have hEval : Eval parseTime t.expr { caller with record := constRecord i p t } = .ok true := by
    rw [hexpr]
    exact Eval_fieldEquals hne hi (constRecord_field i p hexpr hne)
  rw [evaluateRecordPolicies, s.resolves]
  show (do
    let record ← fetchPolicyRecord s.rows s.resourceID s.resolved
    let t ← tallyPolicies parseTime { caller with record } s.resolved ⟨0, 0, ""⟩
    Except.ok (verdict [p] t)) = _
  rw [s.fetched]
  show (do
    let t ← tallyPolicies parseTime { caller with record := constRecord i p t } [(p, t)] ⟨0, 0, ""⟩
    Except.ok (verdict [p] t)) = _
  rw [tallyPolicies, hEval]
  simp [tallyPolicies, Tally.add, hperm, bind, Except.bind, verdict]

/-- The filter compares the column with the float. -/
theorem cond_fieldEquals (caller : Caller) (i : ℤ) (hexpr : t.expr = fieldEquals field text)
    (hf : parseFloat64 text = some f) (hne : field ≠ "")
    (uuid : String → Option String) (collate : String → String → Bool) :
    ∃ sql, CompileToFilter caller 0 t.expr = .ok (sql, [.float f]) ∧
      Sql.Cond (filterEnv (constRow i) [.float f] uuid collate) sql ((i : ℚ) = f) := by
  obtain ⟨condition, hparse⟩ := t.parsed
  have hident : IsIdent field := by
    have hw := parse_wellFormed hparse
    rw [hexpr, fieldEquals] at hw
    cases hw with
    | binary hl _ =>
      cases hl with
      | recordField hident => exact hident
  obtain ⟨hparam, hval⟩ := operand_bindArg 0 (.float f) []
  refine ⟨_, by rw [hexpr]; exact compile_fieldEquals caller hne hf, ?_⟩
  refine ⟨.cmp .eq (.col field) (.param 1), some (decide ((i : ℚ) = f)), ?_, ?_, by simp⟩
  · have hop : BinOp.eq ≠ .like ∧ BinOp.eq ≠ .ilike := by simp
    exact operand_binary (operand_quoteColumn false hident) hparam hop
  have hparam1 : (filterEnv (constRow i) [.float f] uuid collate).eval (.param 1) = some (.num f) := rfl
  have hcol : (filterEnv (constRow i) [.float f] uuid collate).eval (.col field) = some (.num i) := rfl
  rfl

theorem eq_of_decideAlike (htarget : p.target = .ok t) (hperm : p.restrictive = false)
    (hexpr : t.expr = fieldEquals field text) (hne : field ≠ "") (hi : parseInt64 text = some i)
    (hf : parseFloat64 text = some f) (h : DecideAlike parseTime caller [p] t.table) : f = i := by
  let s : Situation parseTime caller [p] t.table := constSituation p t i htarget hexpr hne hi
  obtain ⟨sql, hcompile, hcond⟩ := cond_fieldEquals caller i hexpr hf hne s.uuid s.collate
  have hfilter : rowFilter caller true [p] t.table = .ok ("AND (" ++ sql ++ ")", [.float f]) := by
    simp [rowFilter, compilePolicies, Policy.resolved_ok.mpr htarget, bind, Except.bind, hcompile,
      Fragments.add, hperm, combine]
  have hiff := h s _ _ _ _ hfilter (check_fieldEquals htarget hperm hexpr hne hi)
  have hholds := holds_and_paren hcond.inside
  exact (hholds.mp (hiff.mpr rfl)).symm

end

/-- **The row filter and the record check decide alike** when `float64` can hold every integer literal of the
policies. For one permissive policy `record.field = text` that is also necessary. -/
theorem rowFilter_decides_as_check (parseTime : String → Option ℤ) (caller : Caller) (policies : List Policy)
    (table : String) : ((∀ p ∈ policies, ∀ t, p.target = .ok t → ExactInts t.expr) →
      DecideAlike parseTime caller policies table) ∧
    ∀ p t field text i f, policies = [p] → p.target = .ok t → t.table = table → p.restrictive = false →
      t.expr = fieldEquals field text → field ≠ "" → parseInt64 text = some i → parseFloat64 text = some f →
      (DecideAlike parseTime caller policies table ↔ f = i) := by
  refine ⟨decideAlike_of_exactInts, ?_⟩
  rintro p t field text i f rfl htarget rfl hperm hexpr hne hi hf
  refine ⟨eq_of_decideAlike htarget hperm hexpr hne hi hf, fun heq => decideAlike_of_exactInts ?_⟩
  intro q hq t' ht'
  obtain rfl := mem_singleton.mp hq
  rw [htarget] at ht'
  cases ht'
  rw [hexpr]
  intro text' htext j hj
  obtain rfl : text' = text := by simpa [fieldEquals, numerals] using htext
  rw [hi] at hj
  cases hj
  rw [parseFloat64, decimal?_of_parseInt64 hi] at hf
  simpa [heq] using hf

/-- A salesperson. -/
def salesperson : Caller where
  userID := "u1"
  contactID := ""
  tenantID := "t1"
  roles := []
  hasPermission := some fun _ => true

/-- The orders a salesperson owns. -/
def ownPolicy : Policy where
  name := "sales:order:own"
  target := .ok {
    expr := .binary .eq (.recordField "owner") (.userAttr "id")
    table := "sales_orders"
    pkColumn := "id"
    columns := ["owner"]
    parsed := ⟨"record.owner = user.id", by decide +kernel⟩
    columns_eq := by decide +kernel }
  restrictive := false
  name_ne := by decide

/-- Only orders of more than three items. -/
def bulkPolicy : Policy where
  name := "sales:order:bulk"
  target := .ok {
    expr := .binary .gt (.recordField "quantity") (.literal (.number "3"))
    table := "sales_orders"
    pkColumn := "id"
    columns := ["quantity"]
    parsed := ⟨"record.quantity > 3", by decide +kernel⟩
    columns_eq := by decide +kernel }
  restrictive := true
  name_ne := by decide

def serialTarget : Target where
  expr := fieldEquals "serial" "9007199254740993"
  table := "sales_orders"
  pkColumn := "id"
  columns := ["serial"]
  parsed := ⟨"record.serial = 9007199254740993", by decide +kernel⟩
  columns_eq := by decide +kernel

/-- One order, by its number. -/
def serialPolicy : Policy where
  name := "sales:order:serial"
  target := .ok serialTarget
  restrictive := false
  name_ne := by decide

def sampleOrder : Row
  | "id" => some (.string "o1")
  | "owner" => some (.string "u1")
  | "quantity" => some (.int 5)
  | _ => none

/-- The sample order under both policies, the restrictive one compiled first. -/
def sampleSituation : Situation (fun _ => none) salesperson [bulkPolicy, ownPolicy] "sales_orders" where
  resolved := [(bulkPolicy, _), (ownPolicy, _)]
  resolves := rfl
  resourceID := "o1"
  rows _ _ := some sampleOrder
  row := sampleOrder
  found := by simp
  plain c raw h := by
    unfold sampleOrder at h
    split at h <;> cases h <;> simp [Raw.Plain]
  record := _
  fetched := rfl
  scope := by decide +kernel
  uuid := some
  collate _ _ := false

theorem rowFilter_decides_as_check_regrouped : rowFilter salesperson true [bulkPolicy, ownPolicy] "sales_orders" =
      .ok ("AND (((\"owner\" = $2)) AND (\"quantity\" > $1))", [.float 3, .text "u1"]) ∧
    (filterEnv sampleOrder [.float 3, .text "u1"] some fun _ _ => false).holds
      ("TRUE " ++ "AND (((\"owner\" = $2)) AND (\"quantity\" > $1))") := by
  have hfilter : rowFilter salesperson true [bulkPolicy, ownPolicy] "sales_orders" =
      .ok ("AND (((\"owner\" = $2)) AND (\"quantity\" > $1))", [.float 3, .text "u1"]) := by
    decide +kernel
  have hcheck : evaluateRecordPolicies (fun _ => none) sampleSituation.rows salesperson [bulkPolicy, ownPolicy]
      sampleSituation.resourceID = .ok (true, "") := rfl
  have hexact : ∀ p ∈ [bulkPolicy, ownPolicy], ∀ t, p.target = .ok t → ExactInts t.expr := by
    have hint : parseInt64 "3" = some 3 := by decide +kernel
    have hround : roundFloat64 3 = some 3 := by decide +kernel
    rintro p hp t ht text htext i hi
    simp only [mem_cons, not_mem_nil, or_false] at hp
    rcases hp with rfl | rfl
    · cases ht
      obtain rfl : text = "3" := by simpa [numerals] using htext
      cases hi
      exact hround
    · cases ht
      simp [numerals] at htext
  have hdecide := (rowFilter_decides_as_check (fun _ => none) salesperson [bulkPolicy, ownPolicy] "sales_orders").1
    hexact sampleSituation _ _ _ _ hfilter hcheck
  exact ⟨hfilter, hdecide.mpr rfl⟩

/-- **The filter rounds the literal**: the check allows the order with the number the policy names, and the
    filter, which compares with the float nearest to it, leaves it out. -/
theorem rowFilter_rounds_integer : ¬ DecideAlike (fun _ => none) salesperson [serialPolicy] "sales_orders" := by
  intro h
  have hf : parseFloat64 "9007199254740993" = some 9007199254740992 := by decide +kernel
  have hi : parseInt64 "9007199254740993" = some 9007199254740993 := by decide +kernel
  have hne : "serial" ≠ "" := by decide
  have heq := eq_of_decideAlike (p := serialPolicy) (t := serialTarget) rfl rfl rfl hne hi hf h
  norm_num at heq

end GoErp.Authz
