import Mathlib.Data.List.Nodup
import GoErp.Lib.Number

/-!
# `Tenant.Entitlements` — plan entitlements and overrides

`buildEntitlementSet` (`tenant/resolve/resolver.go`) merges the rows of the plan and then those of the overrides into
three maps, of which `Limit` asks the unlimited features first. A row touches what is held for its own feature only
(`at_mergeEntitlement`), so the merged set is, feature by feature, what two rows at most leave (`at_build`).
-/

namespace GoErp.Tenant

open Lib.Number List

/-- A row of `billing.PlanEntitlement` or `billing.EntitlementOverride`. -/
structure Row where
  feature : String
  value : String

/-- The maps of `EntitlementSet`; a feature that is missing in one of the boolean maps is `false`. -/
structure EntitlementSet where
  features : String → Bool
  limits : String → Option ℤ
  unlimited : String → Bool

def maxInt64 : ℤ := 2 ^ 63 - 1

/-- Digits with or without a sign. -/
def integer? (value : String) : Option ℤ :=
  match value.toList with
  | '-' :: ds => if isDigits ds then some (-(digitsVal ds : ℤ)) else none
  | '+' :: ds => if isDigits ds then some (digitsVal ds) else none
  | ds => if isDigits ds then some (digitsVal ds) else none

/-- `strconv.ParseInt(value, 10, 64)` -/
def parseInt (value : String) : Option ℤ := (integer? value).filter fun n => decide (-2 ^ 63 ≤ n ∧ n ≤ maxInt64)

def isModule (feature : String) : Bool := "module.".toList.isPrefixOf feature.toList

/-- One row: a module switch, `unlimited`, or a number; a value that is no number is skipped. -/
def mergeEntitlement (ents : EntitlementSet) (feature value : String) : EntitlementSet :=
  if isModule feature then { ents with features := Function.update ents.features feature (value == "true") }
  else if value = "unlimited" then { ents with unlimited := Function.update ents.unlimited feature true }
  else match parseInt value with
    | none => ents
    | some n => { ents with limits := Function.update ents.limits feature (some n) }

def EntitlementSet.empty : EntitlementSet := ⟨fun _ => false, fun _ => none, fun _ => false⟩

/-- The rows in their order; a number after `unlimited` does not take it back. -/
def mergeAll (ents : EntitlementSet) (rows : List Row) : EntitlementSet :=
  rows.foldl (fun ents r => mergeEntitlement ents r.feature r.value) ents

/-- The plan's rows, then the tenant's overrides. -/
def buildEntitlementSet (planEnts overrides : List Row) : EntitlementSet :=
  mergeAll (mergeAll .empty planEnts) overrides

def EntitlementSet.ModuleEnabled (e : EntitlementSet) (name : String) : Bool := e.features ("module." ++ name)

/-- `Limit`; no entry is `none`. -/
def EntitlementSet.Limit (e : EntitlementSet) (key : String) : Option ℤ :=
  if e.unlimited key then some maxInt64 else e.limits key

/-! ## What the rows say -/

/-- The value that a list of rows has for a feature. -/
def value? (rows : List Row) (feature : String) : Option String :=
  (rows.find? fun r => r.feature = feature).map Row.value

/-- The override's value, or the plan's. -/
def wanted (planEnts overrides : List Row) (feature : String) : Option String :=
  (value? overrides feature).or (value? planEnts feature)

/-- The limit that a value stands for. -/
def limitOf (value : String) : Option ℤ := if value = "unlimited" then some maxInt64 else integer? value

def OverrideWins (planEnts overrides : List Row) : Prop :=
  (∀ name, (buildEntitlementSet planEnts overrides).ModuleEnabled name =
    (wanted planEnts overrides ("module." ++ name) == some "true")) ∧
  ∀ key, isModule key = false →
    (buildEntitlementSet planEnts overrides).Limit key = (wanted planEnts overrides key).bind limitOf

/-! ## One feature -/

/-- What the three maps hold for a feature. -/
structure Held where
  enabled : Bool
  limit : Option ℤ
  unlimited : Bool

def EntitlementSet.at (ents : EntitlementSet) (key : String) : Held :=
  ⟨ents.features key, ents.limits key, ents.unlimited key⟩

/-- What a row makes of what is held for its feature. -/
def Held.merge (h : Held) (key : String) (value : String) : Held :=
  if isModule key then { h with enabled := value == "true" }
  else if value = "unlimited" then { h with unlimited := true }
  else match parseInt value with
    | none => h
    | some n => { h with limit := some n }

theorem at_mergeEntitlement (ents : EntitlementSet) (feature value key : String) :
    (mergeEntitlement ents feature value).at key =
      if feature = key then (ents.at key).merge key value else ents.at key := by
  unfold mergeEntitlement Held.merge EntitlementSet.at
  by_cases hkey : feature = key
  · subst hkey
    split
    · simp
    split
    · simp
    · cases parseInt value <;> simp
  · have hne : key ≠ feature := Ne.symm hkey
    split
    · simp [hne]
    split
    · simp [hne]
    · cases parseInt value <;> simp [hne]

/-- Of rows for different features, one decides. -/
theorem at_mergeAll {rows : List Row} (hrows : (rows.map Row.feature).Nodup) (ents : EntitlementSet) (key : String) :
    (mergeAll ents rows).at key = ((value? rows key).map ((ents.at key).merge key)).getD (ents.at key) := by
  induction rows generalizing ents with
  | nil => rfl
  | cons r rs ih =>
    obtain ⟨hr, hrs⟩ := nodup_cons.mp hrows
    show (mergeAll (mergeEntitlement ents r.feature r.value) rs).at key = _
    rw [ih hrs, at_mergeEntitlement]
    by_cases hkey : r.feature = key
    · have hnone : value? rs key = none := by
        refine Option.map_eq_none_iff.mpr (find?_eq_none.mpr fun r' hr' heq => hr ?_)
        rw [hkey, ← of_decide_eq_true heq]
        exact mem_map_of_mem hr'
      rw [hnone, if_pos hkey, value?, find?_cons_of_pos (by simpa using hkey)]
      rfl
    · rw [if_neg hkey, value?, value?, find?_cons_of_neg (by simpa using hkey)]

variable {planEnts overrides : List Row}

theorem at_build (hplan : (planEnts.map Row.feature).Nodup) (hover : (overrides.map Row.feature).Nodup) (key : String) :
    let plan := ((value? planEnts key).map ((EntitlementSet.empty.at key).merge key)).getD (EntitlementSet.empty.at key)
    (buildEntitlementSet planEnts overrides).at key = ((value? overrides key).map (plan.merge key)).getD plan := by
  intro plan
  rw [buildEntitlementSet, at_mergeAll hover, at_mergeAll hplan]

theorem isModule_module (name : String) : isModule ("module." ++ name) = true := by
  unfold isModule
  rw [String.toList_append]
  exact isPrefixOf_iff_prefix.mpr (prefix_append _ _)

theorem parseInt_unlimited : parseInt "unlimited" = none := by decide

variable {key : String}

/-- The order of the two tests does not matter: `unlimited` is no number. -/
theorem Held.merge_limit (hkey : isModule key = false) (h : Held) (value : String) :
    h.merge key value = ⟨h.enabled, (parseInt value).or h.limit, h.unlimited || value == "unlimited"⟩ := by
  unfold Held.merge
  rw [hkey, if_neg Bool.false_ne_true]
  split
  · rename_i hvalue
    rw [hvalue, parseInt_unlimited]
    simp
  rename_i hvalue
  have hbeq : (value == "unlimited") = false := by simpa using hvalue
  rw [hbeq, Bool.or_false]
  cases parseInt value <;> rfl

/-- The limit of a feature, by what the plan and the override have for it. -/
theorem limit_build (hplan : (planEnts.map Row.feature).Nodup)
    (hover : (overrides.map Row.feature).Nodup) (hkey : isModule key = false) :
    (buildEntitlementSet planEnts overrides).Limit key =
      if value? planEnts key = some "unlimited" ∨ value? overrides key = some "unlimited" then some maxInt64
      else ((value? overrides key).bind parseInt).or ((value? planEnts key).bind parseInt) := by
  show (if ((buildEntitlementSet planEnts overrides).at key).unlimited then some maxInt64
    else ((buildEntitlementSet planEnts overrides).at key).limit) = _
  rw [at_build hplan hover]
  cases value? planEnts key <;> cases value? overrides key <;>
    simp [Held.merge_limit hkey, EntitlementSet.at, EntitlementSet.empty]

theorem moduleEnabled_build (hplan : (planEnts.map Row.feature).Nodup)
    (hover : (overrides.map Row.feature).Nodup) (name : String) :
    (buildEntitlementSet planEnts overrides).ModuleEnabled name =
      (wanted planEnts overrides ("module." ++ name) == some "true") := by
  show ((buildEntitlementSet planEnts overrides).at ("module." ++ name)).enabled = _
  rw [at_build hplan hover, wanted]
  cases value? planEnts ("module." ++ name) <;> cases value? overrides ("module." ++ name) <;>
    simp [Held.merge, isModule_module, EntitlementSet.at, EntitlementSet.empty]

/-! ## The override wins -/

variable {value : String} {n : ℤ}

theorem parseInt_eq_some : parseInt value = some n ↔ integer? value = some n ∧ -2 ^ 63 ≤ n ∧ n ≤ maxInt64 := by
  simp [parseInt, Option.filter_eq_some_iff]

/-- A limit that is neither out of range nor hidden by an unlimited plan. -/
structure Takes (plan override : Option String) : Prop where
  /-- an integer that counts is one of 64 bits -/
  inRange : ∀ n, (override.or plan).bind integer? = some n → -2 ^ 63 ≤ n ∧ n ≤ maxInt64
  /-- an unlimited plan is not limited by the override -/
  unlimited : plan = some "unlimited" → ∀ n, override.bind integer? = some n → n = maxInt64

/-- A value that `mergeEntitlement` keeps, apart from its range. -/
def IsLimit (value : String) : Prop := value = "unlimited" ∨ ∃ n, integer? value = some n

theorem integer?_unlimited : integer? "unlimited" = none := by decide

theorem limitOf_of_integer (h : integer? value = some n) : value ≠ "unlimited" ∧ limitOf value = some n := by
  have hne : value ≠ "unlimited" := by
    rintro rfl
    cases integer?_unlimited.symm.trans h
  exact ⟨hne, by rw [limitOf, if_neg hne, h]⟩

/-- What is read of a value is its integer, or nothing is. -/
theorem parseInt_or (h : integer? value = some n) {x : Option ℤ} (hx : ∀ m ∈ x, -2 ^ 63 ≤ m ∧ m ≤ maxInt64) :
    (parseInt value).or x = some n ↔ -2 ^ 63 ≤ n ∧ n ≤ maxInt64 := by
  cases hparse : parseInt value with
  | some m =>
    obtain ⟨hm, hrange⟩ := parseInt_eq_some.mp hparse
    obtain rfl : n = m := Option.some.inj (h.symm.trans hm)
    exact iff_of_true rfl hrange
  | none =>
    have hout : ¬ (-2 ^ 63 ≤ n ∧ n ≤ maxInt64) := fun hrange => by
      cases hparse.symm.trans (parseInt_eq_some.mpr ⟨h, hrange⟩)
    exact iff_of_false (fun heq => hout (hx n heq)) hout

/-- One feature: the limit is the wanted one exactly when it is not out of range and not hidden. -/
theorem limit_eq_iff {plan override : Option String} (hplan : ∀ v ∈ plan, IsLimit v)
    (hover : ∀ v ∈ override, IsLimit v) :
    (if plan = some "unlimited" ∨ override = some "unlimited" then some maxInt64
      else (override.bind parseInt).or (plan.bind parseInt)) =
        (override.or plan).bind limitOf ↔ Takes plan override := by
  have hread : ∀ m ∈ plan.bind parseInt, -2 ^ 63 ≤ m ∧ m ≤ maxInt64 := by
    intro m hm
    obtain ⟨p, -, hp⟩ := Option.bind_eq_some_iff.mp hm
    exact (parseInt_eq_some.mp hp).2
  cases override with
  | some o =>
    rcases hover o rfl with rfl | ⟨n, hn⟩
    · exact iff_of_true (by simp [limitOf]) ⟨by simp [integer?_unlimited], by simp [integer?_unlimited]⟩
    obtain ⟨hne, hlimit⟩ := limitOf_of_integer hn
    -- `unlimited` of the plan is never taken back by an override
    by_cases hp : plan = some "unlimited"
    · rw [if_pos (.inl hp)]
      show some maxInt64 = limitOf o ↔ _
      rw [hlimit, Option.some.injEq]
      refine ⟨fun h => ⟨?_, ?_⟩, fun h => (h.unlimited hp n hn).symm⟩
      · rintro m hm
        obtain rfl : n = m := Option.some.inj (hn.symm.trans hm)
        exact ⟨by rw [← h]; decide, h.ge⟩
      rintro - m hm
      obtain rfl : n = m := Option.some.inj (hn.symm.trans hm)
      exact h.symm
    · rw [if_neg (by simp [hp, hne])]
      show (parseInt o).or (plan.bind parseInt) = limitOf o ↔ _
      rw [hlimit, parseInt_or hn hread]
      refine ⟨fun h => ⟨?_, fun hp' => absurd hp' hp⟩, fun h => h.inRange n hn⟩
      rintro m hm
      obtain rfl : n = m := Option.some.inj (hn.symm.trans hm)
      exact h
  | none =>
    cases plan with
    | none => exact iff_of_true rfl ⟨nofun, nofun⟩
    | some p =>
      rcases hplan p rfl with rfl | ⟨n, hn⟩
      · exact iff_of_true (by simp [limitOf]) ⟨by simp [integer?_unlimited], nofun⟩
      obtain ⟨hne, hlimit⟩ := limitOf_of_integer hn
      rw [if_neg (by simp [hne])]
      show parseInt p = limitOf p ↔ _
      have hor := parseInt_or hn (x := none) nofun
      rw [Option.or_none] at hor
      rw [hlimit, hor]
      refine ⟨fun h => ⟨?_, nofun⟩, fun h => h.inRange n hn⟩
      rintro m hm
      obtain rfl : n = m := Option.some.inj (hn.symm.trans hm)
      exact h

theorem value?_mem {rows : List Row} (h : value? rows key = some value) :
    ∃ r ∈ rows, r.feature = key ∧ r.value = value := by
  obtain ⟨r, hr, rfl⟩ := Option.map_eq_some_iff.mp h
  exact ⟨r, mem_of_find?_eq_some hr, by simpa using find?_some hr, rfl⟩

/-- **The override's value counts for every feature, unless the plan is unlimited and the override a number.** -/
theorem override_wins_iff (planEnts overrides : List Row) (hplan : (planEnts.map Row.feature).Nodup)
    (hover : (overrides.map Row.feature).Nodup)
    (hvalues : ∀ r ∈ planEnts ++ overrides, isModule r.feature = false → IsLimit r.value) :
    OverrideWins planEnts overrides ↔
      ∀ key, isModule key = false → Takes (value? planEnts key) (value? overrides key) := by
  have hkey : ∀ key, isModule key = false →
      ((buildEntitlementSet planEnts overrides).Limit key = (wanted planEnts overrides key).bind limitOf ↔
        Takes (value? planEnts key) (value? overrides key)) := by
    intro key hmodule
    rw [limit_build hplan hover hmodule]
    refine limit_eq_iff (fun v hv => ?_) fun v hv => ?_
    · obtain ⟨r, hr, rfl, rfl⟩ := value?_mem hv
      exact hvalues r (mem_append_left _ hr) hmodule
    · obtain ⟨r, hr, rfl, rfl⟩ := value?_mem hv
      exact hvalues r (mem_append_right _ hr) hmodule
  constructor
  · rintro ⟨-, hlimits⟩ key hmodule
    exact (hkey key hmodule).mp (hlimits key hmodule)
  · intro h
    exact ⟨moduleEnabled_build hplan hover, fun key hmodule => (hkey key hmodule).mpr (h key hmodule)⟩

/-- A trial plan of ten users, and a tenant for whom the limit is lifted. -/
theorem override_wins_lifted : OverrideWins [⟨"users.max", "10"⟩] [⟨"users.max", "unlimited"⟩] := by
  refine (override_wins_iff _ _ (by simp) (by simp) ?_).mpr fun key _ => ?_
  · rintro r hr -
    simp only [cons_append, nil_append, mem_cons, not_mem_nil, or_false] at hr
    rcases hr with rfl | rfl
    · exact .inr ⟨10, by decide⟩
    · exact .inl rfl
  by_cases hkey : "users.max" = key
  · subst hkey
    exact ⟨by simp [value?, integer?_unlimited], by simp [value?]⟩
  · exact ⟨by simp [value?, hkey], by simp [value?, hkey]⟩

/-- An unlimited plan, and a tenant whose users are limited to five: there is no limit. -/
theorem unlimited_plan_hides_override : ¬ ∀ planEnts overrides : List Row, (planEnts.map Row.feature).Nodup →
    (overrides.map Row.feature).Nodup →
    (∀ r ∈ planEnts ++ overrides, isModule r.feature = false → IsLimit r.value) → OverrideWins planEnts overrides := by
  intro h
  have hwins := h [⟨"users.max", "unlimited"⟩] [⟨"users.max", "5"⟩] (by simp) (by simp) (by
    rintro r hr -
    simp only [cons_append, nil_append, mem_cons, not_mem_nil, or_false] at hr
    rcases hr with rfl | rfl
    · exact .inl rfl
    · exact .inr ⟨5, by decide⟩)
  exact absurd (hwins.2 "users.max" (by decide)) (by decide)

end GoErp.Tenant
