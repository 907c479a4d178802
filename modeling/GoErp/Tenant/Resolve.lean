import GoErp.Lib.Processes
import GoErp.Tenant.Offboard

/-!
# `Tenant.Resolve` — resolving hosts through the domain cache while a tenant is suspended

`ResolveByHost` and `tenantByDomain` (`tenant/resolve/resolver.go`) beside the operator's `suspend` and `unsuspend`
(`adminapi/tenant.go`), for one tenant and any number of calls of each. A cache read, a database read, a cache write,
the commit of a status and the deletion of a key are one step each.

If the suspension is committed and the key deleted between a reader's read of the row and its write into the cache,
the old row comes back (`stale_fill_resolves`). `suspended_not_resolved` holds in every run without such a write
(`NoStaleFill`).
-/

namespace GoErp.TenantResolve

open Lib.Run Offboard List

/-! ## One call of `ResolveByHost` -/

/-- The errors of `Resolve`. -/
inductive ResolveError where
  | tenantNotFound
  | tenantSuspended
  | tenantOffboarding
  | lookup
  | entitlements
deriving DecidableEq, Repr

/-- The checks before the entitlements are loaded; `none` is a domain without tenant. -/
def checkStatus : Option Tenant → Except ResolveError Tenant
  | none => .error .tenantNotFound
  | some t =>
    if t.status = .suspended then .error .tenantSuspended
    else if t.status = .offboarding then .error .tenantOffboarding
    else .ok t

/-- A row of `system.tenant_domains`, stored as `normaliseDomain` leaves it. -/
structure Domain (normaliseDomain : String → String) where
  domain : String
  /-- verified, or a subdomain of the platform -/
  usable : Bool
  normalised : normaliseDomain domain = domain

/-- Where a call of `Resolve` stands. -/
inductive Reader where
  | idle
  /-- missed the cache -/
  | reading (host : String)
  /-- has read the row, and is to cache it -/
  | caching (host : String) (t : Option Tenant)
  | entitlements (host : String) (t : Tenant)
  /-- returns a tenant context -/
  | returned (host : String) (t : Tenant)
  | failed (host : String) (e : ResolveError)
deriving DecidableEq, Repr

/-- What a call does with a row that it has, from the cache or from the table. -/
def Reader.resolved (host : String) (t : Option Tenant) : Reader :=
  match checkStatus t with
  | .ok t => .entitlements host t
  | .error e => .failed host e

/-! ## One call of `suspend` or `unsuspend` -/

/-- Where a call stands after its status is committed; `v` counts the row it wrote. -/
inductive Operator where
  | revoking (v : Nat)
  | listing (v : Nat)
  | deleting (v : Nat) (keys : List String)
  | returned (v : Nat)
  | failed
deriving DecidableEq, Repr

/-! ## The system -/

/-- The row with its history, the cache, the calls of `Resolve` and those of operators. -/
structure System where
  older : List Tenant
  tenant : Tenant
  /-- by domain; `some none` is a cached miss -/
  cache : String → Option (Option Tenant)
  readers : Nat → Reader
  operators : List Operator

def System.init (t : Tenant) : System := ⟨[], t, fun _ => none, fun _ => .idle, []⟩

/-- The row after each change, the first being the one at the start. -/
def System.history (s : System) : List Tenant := s.older ++ [s.tenant]

def System.setReader (s : System) (r : Nat) (pc : Reader) : System :=
  { s with readers := Function.update s.readers r pc }

def System.setCache (s : System) (domain : String) (entry : Option (Option Tenant)) : System :=
  { s with cache := Function.update s.cache domain entry }

def System.setOperator (s : System) (o : Nat) (pc : Operator) : System := { s with operators := s.operators.set o pc }

def System.replace (s : System) (t : Tenant) : System := { s with older := s.history, tenant := t }

def System.addOperator (s : System) (pc : Operator) : System := { s with operators := s.operators ++ [pc] }

inductive Event where
  | getCache (r : Nat) (host : String)
  | getByDomain (r : Nat) (ok : Bool)
  | setCache (r : Nat)
  | loadEntitlements (r : Nat) (ok : Bool)
  /-- `UpdateStatus` of a `suspend`; with `ok = false` the row is committed and the call fails -/
  | suspend (now : Nat) (reason : String) (ok : Bool)
  | unsuspend (now : Nat) (ok : Bool)
  | revokeAllForTenant (o : Nat) (ok : Bool)
  | domainsForTenant (o : Nat) (ok : Bool)
  /-- one `Delete` of the loop, or the return after the last one -/
  | delete (o : Nat)
  /-- the row is changed by provisioning or offboarding -/
  | other (t : Tenant)
deriving DecidableEq, Repr

section

variable (normaliseDomain : String → String) (domains : List (Domain normaliseDomain))

/-- `GetByDomain`: the row, if the domain is usable and the tenant not deleted. -/
def getByDomain (t : Tenant) (domain : String) : Option Tenant :=
  if (domains.any fun d => d.domain = domain ∧ d.usable) ∧ t.status ≠ .deleted then some t else none

/-- The events; a reader's cache fill is one of its own, after it has read the row. -/
def step (s : System) : Event → Option System
  | .getCache r host =>
    match s.readers r with
    | .idle =>
      match s.cache (normaliseDomain host) with
      | some entry => some (s.setReader r (.resolved host entry))
      | none => some (s.setReader r (.reading host))
    | _ => none
  | .getByDomain r ok =>
    match s.readers r with
    | .reading host =>
      if ok then some (s.setReader r (.caching host
        (getByDomain normaliseDomain domains s.tenant (normaliseDomain host))))
      else some (s.setReader r (.failed host .lookup))
    | _ => none
  | .setCache r =>
    match s.readers r with
    | .caching host t => some ((s.setCache (normaliseDomain host) (some t)).setReader r (.resolved host t))
    | _ => none
  | .loadEntitlements r ok =>
    match s.readers r with
    | .entitlements host t => some (s.setReader r (if ok then .returned host t else .failed host .entitlements))
    | _ => none
  | .suspend now reason ok =>
    let s' := s.replace (s.tenant.updateStatus now .suspended (some reason))
    some (s'.addOperator (if ok then .revoking s.history.length else .failed))
  | .unsuspend now ok =>
    let s' := s.replace (s.tenant.updateStatus now .active none)
    some (s'.addOperator (if ok then .listing s.history.length else .failed))
  | .revokeAllForTenant o ok =>
    match s.operators[o]? with
    | some (.revoking v) => some (s.setOperator o (if ok then .listing v else .failed))
    | _ => none
  | .domainsForTenant o ok =>
    match s.operators[o]? with
    | some (.listing v) =>
      -- the keys of `DomainCacheKey`
      some (s.setOperator o (if ok then .deleting v (domains.map fun d => normaliseDomain d.domain) else .failed))
    | _ => none
  | .delete o =>
    match s.operators[o]? with
    | some (.deleting v []) => some (s.setOperator o (.returned v))
    | some (.deleting v (key :: keys)) => some ((s.setCache key none).setOperator o (.deleting v keys))
    | _ => none
  | .other t => some (s.replace t)

/-! ## Suspension -/

/-- Statuses for which no host resolves. -/
def Blocked (t : Tenant) : Prop := t.status = .suspended ∨ t.status = .offboarding ∨ t.status = .deleted

instance (t : Tenant) : Decidable (Blocked t) := by
  unfold Blocked
  infer_instance

/-- The tenant has not been unsuspended since the row `v`. -/
def System.SuspendedSince (s : System) (v : Nat) : Prop := ∀ t ∈ s.history.drop v, Blocked t

instance (s : System) (v : Nat) : Decidable (s.SuspendedSince v) := by
  unfold System.SuspendedSince
  infer_instance

/-- The call has deleted the key, after writing the row `v`. -/
def Operator.Deleted (domain : String) (v : Nat) : Operator → Prop
  | .deleting v' keys => v' = v ∧ domain ∉ keys
  | .returned v' => v' = v
  | _ => False

/-- The row that a call wrote. -/
def Operator.row : Operator → Option Nat
  | .revoking v => some v
  | .listing v => some v
  | .deleting v _ => some v
  | .returned v => some v
  | _ => none

/-- No row that admits a request is written into the cache once its key has been deleted for a suspension that still
holds. -/
def NoStaleFill (s : System) : Event → Prop
  | .setCache r =>
    match s.readers r with
    | .caching host t =>
      (checkStatus t).isOk → ∀ pc ∈ s.operators, ∀ v ∈ pc.row, pc.Deleted (normaliseDomain host) v →
        ¬ s.SuspendedSince v
    | _ => True
  | _ => True

instance (domain : String) (v : Nat) (pc : Operator) : Decidable (pc.Deleted domain v) := by
  unfold Operator.Deleted
  split <;> infer_instance

instance (s : System) (e : Event) : Decidable (NoStaleFill normaliseDomain s e) := by
  unfold NoStaleFill
  split
  · split <;> infer_instance
  · infer_instance

end

variable {normaliseDomain : String → String} {domains : List (Domain normaliseDomain)}

/-! ## Small facts -/

/-- A blocked tenant is resolved by no domain. -/
theorem checkStatus_getByDomain {t : Tenant} (h : Blocked t) (domain : String) :
    (checkStatus (getByDomain normaliseDomain domains t domain)).isOk = false := by
  unfold getByDomain
  split
  · rename_i hfound
    rcases h with h | h | h
    iterate 2
      simp [checkStatus, h]
      rfl
    · exact absurd h hfound.2
  · rfl

variable {v : Nat} {pc : Operator}

theorem Operator.Deleted.row {domain : String} (h : pc.Deleted domain v) : pc.row = some v := by
  cases pc with
  | deleting v' keys => exact congrArg some h.1
  | returned v' => exact congrArg some h
  | revoking v' => exact h.elim
  | listing v' => exact h.elim
  | failed => exact h.elim

variable {s : System}

/-- A suspension that holds now held before. -/
theorem System.SuspendedSince.of_later {u : System} (hsu : s.history <+: u.history)
    (h : u.SuspendedSince v) : s.SuspendedSince v := by
  intro t ht
  obtain ⟨more, hmore⟩ := hsu
  apply h
  rw [← hmore, drop_append]
  exact mem_append_left _ ht

/-- The current row is one of those since `v`. -/
theorem System.SuspendedSince.current (h : s.SuspendedSince v) (hv : v < s.history.length) : Blocked s.tenant := by
  apply h
  have hle : v ≤ s.older.length := by
    simp only [System.history, length_append, length_singleton] at hv
    omega
  rw [System.history, drop_append_of_le_length hle]
  exact mem_append_right _ (mem_singleton.mpr rfl)

variable {t : Option Tenant} {host' host : String}

theorem resolved_eq_returned {t' : Tenant} : Reader.resolved host t ≠ .returned host' t' := by
  unfold Reader.resolved
  split <;> exact Reader.noConfusion

theorem resolved_eq_caching {t' : Option Tenant} : Reader.resolved host t ≠ .caching host' t' := by
  unfold Reader.resolved
  split <;> exact Reader.noConfusion

/-- A call that goes on to the entitlements has passed the status check. -/
theorem resolved_eq_entitlements {t' : Tenant}
    (h : Reader.resolved host t = .entitlements host' t') : host = host' ∧ (checkStatus t).isOk = true := by
  unfold Reader.resolved at h
  split at h <;> cases h
  rename_i hok
  exact ⟨rfl, by rw [hok]; rfl⟩

variable {r : Nat}

theorem setReader_of_ne (s : System) {r' : Nat} (pc : Reader) (h : r' ≠ r) :
    (s.setReader r pc).readers r' = s.readers r' := Function.update_of_ne h ..

@[simp] theorem setReader_self (s : System) (r : Nat) (pc : Reader) : (s.setReader r pc).readers r = pc :=
  Function.update_self ..

/-! ## What the cache may hold -/

/-- The rows that operators wrote are in the history, and a key that was deleted for a suspension stays without an
admitting row. -/
structure Inv (domains : List (Domain normaliseDomain)) (s : System) : Prop where
  row_lt : ∀ pc ∈ s.operators, ∀ v, pc.row = some v → v < s.history.length
  /-- Once the key is deleted for a suspension that holds, no row under it admits a request. -/
  cached : ∀ d ∈ domains, ∀ pc ∈ s.operators, ∀ v, pc.Deleted d.domain v → s.SuspendedSince v →
    ∀ entry, s.cache d.domain = some entry → (checkStatus entry).isOk = false

theorem Inv.init (t : Tenant) : Inv domains (System.init t) where
  row_lt := by intro pc hpc; cases hpc
  cached := by intro d _ pc hpc; cases hpc

variable (hs : Inv domains s)

include hs

/-- A reader's own step changes nothing the invariant speaks of. -/
theorem Inv.setReader (r : Nat) (pc : Reader) : Inv domains (s.setReader r pc) :=
  ⟨hs.row_lt, hs.cached⟩

/-- A row is cached under a key that has not been deleted for a suspension, or the row admits nobody. -/
theorem Inv.setCache (key : String) (new : Option (Option Tenant))
    (hfill : ∀ t ∈ new, (checkStatus t).isOk = true → ∀ pc ∈ s.operators, ∀ v, pc.Deleted key v →
      ¬ s.SuspendedSince v) :
    Inv domains (s.setCache key new) where
  row_lt := hs.row_lt
  cached := by
    intro d hd pc hpc v hdel hsince entry hentry
    rw [System.setCache] at hentry
    by_cases h : d.domain = key
    · rw [h] at hdel hentry
      simp only [Function.update_self] at hentry
      by_contra hok
      exact hfill entry hentry (by simpa using hok) pc hpc v hdel hsince
    · simp only [Function.update_of_ne h] at hentry
      exact hs.cached d hd pc hpc v hdel hsince entry hentry

/-- A new row, written by an operator. -/
theorem Inv.replace (t : Tenant) : Inv domains (s.replace t) := by
  have hgrows : s.history <+: (s.replace t).history := prefix_append _ _
  constructor
  case row_lt =>
    intro pc hpc v hv
    exact Nat.lt_of_lt_of_le (hs.row_lt pc hpc v hv) hgrows.length_le
  case cached =>
    intro d hd pc hpc v hdel hsince entry hentry
    exact hs.cached d hd pc hpc v hdel (hsince.of_later hgrows) entry hentry

/-- A call comes in, or moves on: what it has deleted then is already gone from the cache. -/
theorem Inv.operators {ops : List Operator}
    (hops : ∀ pc ∈ ops, pc ∈ s.operators ∨ (∀ v, pc.row = some v → v < s.history.length) ∧
      ∀ d ∈ domains, ∀ v, pc.Deleted d.domain v →
        s.cache d.domain = none ∨ ∃ pc' ∈ s.operators, pc'.Deleted d.domain v) :
    Inv domains { s with operators := ops } where
  row_lt := by
    intro pc hpc v hv
    rcases hops pc hpc with hold | ⟨hrow, -⟩
    · exact hs.row_lt pc hold v hv
    · exact hrow v hv
  cached := by
    intro d hd pc hpc v hdel hsince entry hentry
    rcases hops pc hpc with hold | ⟨-, hnew⟩
    · exact hs.cached d hd pc hold v hdel hsince entry hentry
    rcases hnew d hd v hdel with hnone | ⟨pc', hpc', hdel'⟩
    · exact absurd (hnone.symm.trans hentry) (by simp)
    · exact hs.cached d hd pc' hpc' v hdel' hsince entry hentry

theorem Inv.addOperator (hrow : ∀ v, pc.row = some v → v < s.history.length)
    (hnot : ∀ domain v, ¬ pc.Deleted domain v) : Inv domains (s.addOperator pc) := by
  refine hs.operators ?_
  intro pc' hpc'
  rcases mem_append.mp hpc' with h | h
  · exact .inl h
  · rw [mem_singleton.mp h]
    exact .inr ⟨hrow, fun d _ v hdel => absurd hdel (hnot d.domain v)⟩

/-- An operator moves on; a deletion it has made is a deletion of the cache. -/
theorem Inv.setOperator (o : Nat) (hrow : ∀ v, pc.row = some v → v < s.history.length)
    (hdel : ∀ d ∈ domains, ∀ v, pc.Deleted d.domain v →
      s.cache d.domain = none ∨ ∃ pc' ∈ s.operators, pc'.Deleted d.domain v) :
    Inv domains (s.setOperator o pc) := by
  refine hs.operators ?_
  intro pc' hpc'
  rcases mem_or_eq_of_mem_set hpc' with h | rfl
  · exact .inl h
  · exact .inr ⟨hrow, hdel⟩

variable {s' : System}

/-- Every event keeps the invariant, if no stale row is filled in. -/
theorem Inv.step {e : Event} (hok : NoStaleFill normaliseDomain s e) (h : step normaliseDomain domains s e = some s') :
    Inv domains s' := by
  cases e with
  | getCache r host | getByDomain r ok =>
    rw [TenantResolve.step] at h
    split at h
    · split at h
      all_goals
        cases h
        exact hs.setReader r _
    · cases h
  | setCache r =>
    rw [TenantResolve.step] at h
    split at h <;> cases h
    rename_i host t hr
    refine (hs.setCache _ (some t) ?_).setReader r _
    rintro _ ⟨⟩ hadmit pc hpc v hdel
    rw [NoStaleFill, hr] at hok
    exact hok hadmit pc hpc v hdel.row hdel
  | loadEntitlements r ok =>
    rw [TenantResolve.step] at h
    split at h <;> cases h
    exact hs.setReader r _
  | suspend now reason ok | unsuspend now ok =>
    cases h
    refine (hs.replace _).addOperator ?_ ?_
    · intro v hv
      split at hv <;> cases hv
      simp [System.replace, System.history]
    · intro domain v
      split <;> exact id
  | revokeAllForTenant o ok =>
    rw [TenantResolve.step] at h
    split at h <;> cases h
    rename_i v ho
    have hv := hs.row_lt _ (mem_of_getElem? ho) v rfl
    refine hs.setOperator o ?_ ?_
    · intro v' hv'
      split at hv' <;> cases hv'
      exact hv
    · intro d _ v' hdel
      split at hdel <;> exact hdel.elim
  | domainsForTenant o ok =>
    rw [TenantResolve.step] at h
    split at h <;> cases h
    rename_i v ho
    have hv := hs.row_lt _ (mem_of_getElem? ho) v rfl
    refine hs.setOperator o ?_ ?_
    · intro v' hv'
      split at hv' <;> cases hv'
      exact hv
    intro d hd v' hdel
    split at hdel
    · -- every key is still to be deleted
      refine absurd ?_ hdel.2
      exact mem_map.mpr ⟨d, hd, d.normalised⟩
    · exact hdel.elim
  | delete o =>
    rw [TenantResolve.step] at h
    split at h
    · rename_i v ho
      cases h
      have hmem := mem_of_getElem? ho
      refine hs.setOperator o ?_ ?_
      · intro v' hv'
        cases hv'
        exact hs.row_lt _ hmem v rfl
      · intro d _ v' hdel
        exact .inr ⟨_, hmem, hdel, not_mem_nil⟩
    · rename_i v key keys ho
      cases h
      have hmem := mem_of_getElem? ho
      refine (hs.setCache key none (by rintro _ ⟨⟩)).setOperator o ?_ ?_
      · intro v' hv'
        cases hv'
        exact hs.row_lt _ hmem v rfl
      intro d _ v' hdel
      by_cases hkey : d.domain = key
      · refine .inl ?_
        rw [hkey]
        exact Function.update_self ..
      · exact .inr ⟨_, hmem, hdel.1, not_mem_cons_of_ne_of_not_mem hkey hdel.2⟩
    · cases h
  | other t =>
    cases h
    exact hs.replace t

omit hs

/-! ## A call that starts after the suspension has returned -/

/-- The host is one of the tenant's. -/
def Hosts (domains : List (Domain normaliseDomain)) (host : String) : Prop :=
  ∃ d ∈ domains, d.domain = normaliseDomain host

/-- The call for the row `v` has returned; for the tenant's hosts the call `r` does not get past the checks while the
suspension holds. -/
structure Later (domains : List (Domain normaliseDomain)) (v r : Nat) (s : System) : Prop where
  returned : Operator.returned v ∈ s.operators
  caching : ∀ host t, s.readers r = .caching host t → Hosts domains host → s.SuspendedSince v →
    (checkStatus t).isOk = false
  entitlements : ∀ host t, s.readers r = .entitlements host t → Hosts domains host → ¬ s.SuspendedSince v
  result : ∀ host t, s.readers r = .returned host t → Hosts domains host → ¬ s.SuspendedSince v

theorem Later.mono (hs : Later domains v r s) (hreaders : s'.readers = s.readers)
    (hhistory : s.history <+: s'.history) (hreturned : Operator.returned v ∈ s'.operators) : Later domains v r s' where
  returned := hreturned
  caching := by
    intro host t hr hhost hsince
    rw [hreaders] at hr
    exact hs.caching host t hr hhost (hsince.of_later hhistory)
  entitlements := by
    intro host t hr hhost hsince
    rw [hreaders] at hr
    exact hs.entitlements host t hr hhost (hsince.of_later hhistory)
  result := by
    intro host t hr hhost hsince
    rw [hreaders] at hr
    exact hs.result host t hr hhost (hsince.of_later hhistory)

theorem Later.setReader (hs : Later domains v r s) (r' : Nat) {pc : Reader}
    (hcaching : r = r' → ∀ host t, pc = .caching host t → Hosts domains host → s.SuspendedSince v →
      (checkStatus t).isOk = false)
    (hentitlements : r = r' → ∀ host t, pc = .entitlements host t → Hosts domains host → ¬ s.SuspendedSince v)
    (hresult : r = r' → ∀ host t, pc = .returned host t → Hosts domains host → ¬ s.SuspendedSince v) :
    Later domains v r (s.setReader r' pc) := by
  by_cases h : r = r'
  · subst h
    refine ⟨hs.returned, ?_, ?_, ?_⟩
    · intro host t hr
      rw [setReader_self] at hr
      exact hcaching rfl host t hr
    · intro host t hr
      rw [setReader_self] at hr
      exact hentitlements rfl host t hr
    intro host t hr
    rw [setReader_self] at hr
    exact hresult rfl host t hr
  · refine ⟨hs.returned, ?_, ?_, ?_⟩
    · intro host t hr
      rw [setReader_of_ne s pc h] at hr
      exact hs.caching host t hr
    · intro host t hr
      rw [setReader_of_ne s pc h] at hr
      exact hs.entitlements host t hr
    intro host t hr
    rw [setReader_of_ne s pc h] at hr
    exact hs.result host t hr

/-- A reader has its row: it goes past the checks only with one that is admitted. -/
theorem Later.resolved (hs : Later domains v r s) (r' : Nat)
    (ht : r = r' → Hosts domains host → s.SuspendedSince v → (checkStatus t).isOk = false) :
    Later domains v r (s.setReader r' (.resolved host t)) := by
  refine hs.setReader r' ?_ ?_ ?_
  · intro _ host' t' hpc
    exact absurd hpc resolved_eq_caching
  · intro hr host' t' hpc hhost hsince
    obtain ⟨rfl, hok⟩ := resolved_eq_entitlements hpc
    rw [ht hr hhost hsince] at hok
    cases hok
  · intro _ host' t' hpc
    exact absurd hpc resolved_eq_returned

/-- A call that began after the suspension had returned is not admitted, step by step. -/
theorem Later.step (hs : Later domains v r s) (hinv : Inv domains s) {e : Event}
    (h : TenantResolve.step normaliseDomain domains s e = some s') : Later domains v r s' := by
  cases e with
  | getCache r' host =>
    rw [TenantResolve.step] at h
    split at h
    · split at h
      · rename_i entry hentry
        cases h
        refine hs.resolved r' ?_
        rintro - ⟨d, hd, hdomain⟩ hsince
        rw [← hdomain] at hentry
        -- the key was deleted for this suspension, so what is under it now admits no request
        exact hinv.cached d hd _ hs.returned v rfl hsince entry hentry
      · cases h
        exact hs.setReader r' (by intro _ _ _ hpc; cases hpc) (by intro _ _ _ hpc; cases hpc)
          (by intro _ _ _ hpc; cases hpc)
    · cases h
  | getByDomain r' ok =>
    rw [TenantResolve.step] at h
    split at h
    · split at h
      · cases h
        refine hs.setReader r' ?_ (by intro _ _ _ hpc; cases hpc) (by intro _ _ _ hpc; cases hpc)
        intro _ host t hpc _ hsince
        cases hpc
        exact checkStatus_getByDomain (hsince.current (hinv.row_lt _ hs.returned v rfl)) _
      cases h
      exact hs.setReader r' (by intro _ _ _ hpc; cases hpc) (by intro _ _ _ hpc; cases hpc)
        (by intro _ _ _ hpc; cases hpc)
    · cases h
  | setCache r' =>
    rw [TenantResolve.step] at h
    split at h <;> cases h
    rename_i host t hr'
    have hcache : Later domains v r (s.setCache (normaliseDomain host) (some t)) :=
      hs.mono rfl (prefix_refl _) hs.returned
    refine hcache.resolved r' ?_
    rintro rfl hhost hsince
    -- what is cached now was read before: the reader already carries the fact
    exact hs.caching host t hr' hhost hsince
  | loadEntitlements r' ok =>
    rw [TenantResolve.step] at h
    split at h <;> cases h
    rename_i host t hr'
    refine hs.setReader r' ?_ ?_ ?_
    iterate 2
      intro _ host' t' hpc
      split at hpc <;> cases hpc
    rintro rfl host' t' hpc
    split at hpc <;> cases hpc
    exact hs.entitlements host t hr'
  | suspend now reason ok | unsuspend now ok =>
    cases h
    exact hs.mono rfl (prefix_append _ _) (mem_append_left _ hs.returned)
  | revokeAllForTenant o ok | domainsForTenant o ok =>
    rw [TenantResolve.step] at h
    split at h <;> cases h
    rename_i v' ho
    exact hs.mono rfl (prefix_refl _) (Lib.Processes.mem_set_of_ne ho Operator.noConfusion hs.returned)
  | delete o =>
    rw [TenantResolve.step] at h
    split at h
    · rename_i v' ho
      cases h
      exact hs.mono rfl (prefix_refl _) (Lib.Processes.mem_set_of_ne ho Operator.noConfusion hs.returned)
    · rename_i v' key keys ho
      cases h
      exact hs.mono rfl (prefix_refl _) (Lib.Processes.mem_set_of_ne ho Operator.noConfusion hs.returned)
    · cases h
  | other t =>
    cases h
    exact hs.mono rfl (prefix_append _ _) hs.returned

/-! ## Every run -/

/-- **A suspension takes effect when the call returns**, in every run in which no reader caches an old row after its
key has been deleted: until the tenant is unsuspended, a call that begins after the return gives no context for a host
of the tenant. -/
theorem suspended_not_resolved (normaliseDomain : String → String) (domains : List (Domain normaliseDomain))
    (t : Tenant) (before after : List Event)
    (hok : Along (step normaliseDomain domains) (NoStaleFill normaliseDomain) (System.init t) (before ++ after))
    {s u : System} (hs : run (step normaliseDomain domains) (System.init t) before = some s)
    (hu : run (step normaliseDomain domains) s after = some u) {o v : Nat}
    (ho : s.operators[o]? = some (.returned v)) (hsince : u.SuspendedSince v) {r : Nat} (hr : s.readers r = .idle)
    {host : String} (hhost : Hosts domains host) (context : Tenant) : u.readers r ≠ .returned host context := by
  have hbefore : Along (step normaliseDomain domains) (NoStaleFill normaliseDomain) (System.init t) before :=
    hok.left_of_append
  have hafter : Along (step normaliseDomain domains) (NoStaleFill normaliseDomain) s after := hok.of_append hs
  have hinv : Inv domains s := run_invariant (fun _ _ _ hi hfill hstep => hi.step hfill hstep) (Inv.init t) hbefore hs
  have hlater : Later domains v r s := by
    refine ⟨mem_of_getElem? ho, ?_, ?_, ?_⟩
    all_goals
      intro host t hreader
      rw [hr] at hreader
      cases hreader
  have hstep : ∀ s e s', (Inv domains s ∧ Later domains v r s) → NoStaleFill normaliseDomain s e →
      step normaliseDomain domains s e = some s' → Inv domains s' ∧ Later domains v r s' := by
    intro s e s' ⟨hi, hl⟩ hfill h
    exact ⟨hi.step hfill h, hl.step hi h⟩
  have hend := run_invariant hstep ⟨hinv, hlater⟩ hafter hu
  intro hret
  exact hend.2.result host context hret hhost hsince

/-- Hosts that are already normalised. -/
def plainDomain : Domain id := ⟨"acme.test", true, rfl⟩

/-- The row is cached, the tenant suspended and the key deleted; the next call reads the suspended row. -/
def cachedBeforeSuspend : List Event :=
  [.getCache 0 "acme.test", .getByDomain 0 true, .setCache 0, .loadEntitlements 0 true, .suspend 1 "unpaid" true,
    .revokeAllForTenant 0 true, .domainsForTenant 0 true, .delete 0, .delete 0]

/-- A call of `Resolve` after the suspension. -/
def callAfterSuspend : List Event := [.getCache 1 "acme.test", .getByDomain 1 true, .setCache 1]

theorem suspended_not_resolved_cached :
    ∃ s u, run (step id [plainDomain]) (System.init activeTenant) cachedBeforeSuspend = some s ∧
      run (step id [plainDomain]) s callAfterSuspend = some u ∧ s.operators[0]? = some (.returned 1) ∧
      u.SuspendedSince 1 ∧ s.readers 1 = .idle ∧ ∀ context, u.readers 1 ≠ .returned "acme.test" context := by
  have hhost : Hosts [plainDomain] "acme.test" := ⟨plainDomain, mem_singleton.mpr rfl, rfl⟩
  refine ⟨_, _, rfl, rfl, rfl, by decide, rfl, ?_⟩
  exact suspended_not_resolved id [plainDomain] activeTenant cachedBeforeSuspend callAfterSuspend (by decide)
    (o := 0) (v := 1) (r := 1) rfl rfl rfl (by decide) rfl hhost

/-- A reader has the active row in hand; the tenant is suspended and the key deleted; the reader caches its row. -/
def staleFill : List Event :=
  [.getCache 0 "acme.test", .getByDomain 0 true, .suspend 1 "unpaid" true, .revokeAllForTenant 0 true,
    .domainsForTenant 0 true, .delete 0, .delete 0, .setCache 0]

def callAfterStaleFill : List Event := [.getCache 1 "acme.test", .loadEntitlements 1 true]

theorem stale_fill_resolves :
    ¬ ∀ (normaliseDomain : String → String) (domains : List (Domain normaliseDomain)) (t : Tenant)
        (before after : List Event) (s u : System) (o v r : Nat) (host : String) (context : Tenant),
      run (step normaliseDomain domains) (System.init t) before = some s →
      run (step normaliseDomain domains) s after = some u →
      s.operators[o]? = some (.returned v) → u.SuspendedSince v → s.readers r = .idle → Hosts domains host →
      u.readers r ≠ .returned host context := by
  intro h
  have hhost : Hosts [plainDomain] "acme.test" := ⟨plainDomain, mem_singleton.mpr rfl, rfl⟩
  exact h id [plainDomain] activeTenant staleFill callAfterStaleFill _ _ 0 1 1 "acme.test" activeTenant rfl rfl rfl
    (by decide) rfl hhost rfl

end GoErp.TenantResolve
