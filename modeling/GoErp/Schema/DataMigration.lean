import GoErp.Lib.Except
import GoErp.Lib.Walk
import GoErp.Schema.Semver

/-!
# `Schema.DataMigration` — a plan computed once, and the chain of jobs that recomputes it

`ApplicableDataMigrations` (`schema/migration_range.go`) lists the migrations of an upgrade in the order of their
boundaries. The engine does not run that list: `EnqueueApplicableDataMigration` (`jobdispatch/worker.go`) inserts a
job for its first entry, and a job that succeeds advances the watermark to its boundary and enqueues again. River
drops a job that has been inserted before.

The chain is a walk on watermarks that stops where no migration is applicable or where it has been before. For an
`Upgrade`, whose migrations apply below their own boundaries only, the watermark rises from job to job, and the chain
runs the plan exactly if the planned migrations are `Successive`: each one still applies at the boundary of the one
before it, and no migration from outside the plan gets in between.
-/

namespace GoErp.Schema

open Lib List

structure DataMigration where
  fromVersion : String
  toVersion : String
  description : String
  handler : String
deriving DecidableEq, Repr

inductive MigrationError where
  | currentVersion (s : String)
  | targetVersion (s : String)
  | fromVersion (handler s : String)
  | toVersion (handler s : String)
  | boundary (handler s : String)
  /-- `river.JobCancel`: no declared handler of this name -/
  | noHandler (handler : String)
  /-- no `module_schema_versions` row to advance -/
  | noRow
deriving DecidableEq, Repr

variable (S : Semver)

/-! ## The plan -/

/-- A migration that applies, with its boundary. -/
structure Candidate where
  migration : DataMigration
  boundary : S.Version

def orError {α : Type} (e : MigrationError) : Option α → Except MigrationError α
  | none => .error e
  | some a => .ok a

/-- One round of the loop of `ApplicableDataMigrations`. -/
def candidate (current target : S.Version) (m : DataMigration) : Except MigrationError (Option (Candidate S)) := do
  let fromConstraint ← orError (.fromVersion m.handler m.fromVersion) (S.newConstraint m.fromVersion)
  let toConstraint ← orError (.toVersion m.handler m.toVersion) (S.newConstraint m.toVersion)
  if !S.check fromConstraint current || !S.check toConstraint target then return none
  let boundary ← orError (.boundary m.handler m.toVersion) (S.migrationBoundaryVersion m.toVersion)
  return some ⟨m, boundary⟩

def candidates (current target : S.Version) : List DataMigration → Except MigrationError (List (Candidate S))
  | [] => .ok []
  | m :: ms => do
    let c ← candidate S current target m
    let cs ← candidates current target ms
    return c.toList ++ cs

/-- The sort is stable: migrations that share a boundary keep their order of declaration. -/
def applicableCandidates (currentVersion targetVersion : String) (migrations : List DataMigration) :
    Except MigrationError (List (Candidate S)) := do
  let current ← orError (.currentVersion currentVersion) (S.newVersion currentVersion)
  let target ← orError (.targetVersion targetVersion) (S.newVersion targetVersion)
  let cs ← candidates S current target migrations
  return cs.insertionSort fun a b => S.le a.boundary b.boundary = true

def applicableDataMigrations (currentVersion targetVersion : String) (migrations : List DataMigration) :
    Except MigrationError (List DataMigration) :=
  (applicableCandidates S currentVersion targetVersion migrations).map (·.map (·.migration))

/-! ## The chain of jobs -/

structure LoadedModule where
  name : String
  version : String
  dataMigrations : List DataMigration

/-- A row of `system.module_schema_versions`. -/
structure SchemaVersion where
  currentVersion : String
  schemaSyncStatus : String
  dataMigrationVersion : Option String
deriving DecidableEq, Repr

/-- The arguments of a migration job; its payload repeats them. -/
structure WasmJobArgs where
  moduleName : String
  jobType : String
  tenantID : String
  migrationFromVersion : String
  migrationToVersion : String
deriving DecidableEq, Repr

structure TenantState where
  row : Option SchemaVersion
  /-- the jobs inserted so far, in any state: arguments are unique among them -/
  inserted : List WasmJobArgs
deriving DecidableEq, Repr

/-- The watermark, and whether the tenant is synced to the target. -/
def dataMigrationWatermark (row : Option SchemaVersion) (targetVersion : String) : String × Bool :=
  match row with
  | none => ("0.0.0", false)
  | some r =>
    if r.currentVersion ≠ targetVersion ∨ r.schemaSyncStatus ≠ "ok" then ("0.0.0", false)
    else (r.dataMigrationVersion.getD "0.0.0", true)

/-- The recorded version moves on; there must be a row. -/
def advanceDataMigrationVersion (row : Option SchemaVersion) (toVersion : String) :
    Except MigrationError (Option SchemaVersion) :=
  match row with
  | none => .error .noRow
  | some r => .ok (some { r with dataMigrationVersion := some toVersion })

/-! ## Work queued under another version -/

/-- The loop of `IsQueuedWorkCompatible`: no boundary lies above `fromV` and not above `toV`. -/
def boundariesAvoid (fromV toV : S.Version) : List DataMigration → Except MigrationError Bool
  | [] => .ok true
  | m :: ms => do
    let boundary ← orError (.boundary m.handler m.toVersion) (S.migrationBoundaryVersion m.toVersion)
    if !S.le boundary fromV && S.le boundary toV then return false
    boundariesAvoid fromV toV ms

/-- Work pinned to a module version may run under another one. -/
def isQueuedWorkCompatible (migrations : List DataMigration) (fromVersion toVersion : String) :
    Except MigrationError Bool :=
  if fromVersion = "" ∨ fromVersion = toVersion then .ok true
  else do
    let fromV ← orError (.currentVersion fromVersion) (S.newVersion fromVersion)
    let toV ← orError (.targetVersion toVersion) (S.newVersion toVersion)
    boundariesAvoid S fromV toV migrations

@[simp] theorem isQueuedWorkCompatible_self (migrations : List DataMigration) (version : String) :
    isQueuedWorkCompatible S migrations version version = .ok true := by
  simp [isQueuedWorkCompatible]

section

variable (mod : LoadedModule) (tenantID : String)

/-- The migration `EnqueueApplicableDataMigration` starts at a watermark, with the text of its boundary. -/
def firstApplicable (watermark : String) : Except MigrationError (Option (DataMigration × String)) :=
  if mod.dataMigrations = [] then .ok none
  else do
    let applicable ← applicableDataMigrations S watermark mod.version mod.dataMigrations
    match applicable with
    | [] => return none
    | next :: _ =>
      let toVersion ← orError (.boundary next.handler next.toVersion) (S.migrationBoundaryVersion next.toVersion)
      return some (next, S.string toVersion)

def jobFor (watermark : String) (next : DataMigration × String) : WasmJobArgs :=
  ⟨mod.name, next.1.handler, tenantID, watermark, next.2⟩

/-- River skips a job whose arguments it has already. -/
def TenantState.insert (st : TenantState) (job : WasmJobArgs) : TenantState × Option WasmJobArgs :=
  if job ∈ st.inserted then (st, none) else ({ st with inserted := job :: st.inserted }, some job)

/-- The state after the call, and the job if one was inserted. -/
def enqueueApplicableDataMigration (st : TenantState) : Except MigrationError (TenantState × Option WasmJobArgs) :=
  let (watermark, eligible) := dataMigrationWatermark st.row mod.version
  if !eligible then .ok (st, none)
  else do
    match ← firstApplicable S mod watermark with
    | none => return (st, none)
    | some next => return st.insert (jobFor mod tenantID watermark next)

def hasDataMigrationHandler (handler : String) : Bool := mod.dataMigrations.any (·.handler == handler)

/-- A migration job whose handler succeeds: the watermark, then the next job. -/
def work (st : TenantState) (job : WasmJobArgs) : Except MigrationError (TenantState × Option WasmJobArgs) :=
  if !hasDataMigrationHandler mod job.jobType then .error (.noHandler job.jobType)
  else do
    let row ← advanceDataMigrationVersion st.row job.migrationToVersion
    enqueueApplicableDataMigration S mod tenantID { st with row := row }

/-- Runs the inserted job and those it enqueues; `none` is a chain that has not stopped after `fuel` jobs. -/
def runJobs : (fuel : Nat) → TenantState → Option WasmJobArgs → Except MigrationError (Option (List WasmJobArgs))
  | _, _, none => .ok (some [])
  | 0, _, some _ => .ok none
  | fuel + 1, st, some job => do
    let (st', next) ← work S mod tenantID st job
    let rest ← runJobs fuel st' next
    return rest.map (job :: ·)

/-- The whole chain from a state: the jobs that ran, once it has stopped. -/
def chain (fuel : Nat) (st : TenantState) : Except MigrationError (Option (List WasmJobArgs)) := do
  let (st', job) ← enqueueApplicableDataMigration S mod tenantID st
  runJobs S mod tenantID fuel st' job

/-- The chain stops after running these jobs. -/
def Stops (st : TenantState) (jobs : List WasmJobArgs) : Prop :=
  ∃ fuel, chain S mod tenantID fuel st = .ok (some jobs)

/-- The chain stops after running these handlers in this order. -/
def Runs (st : TenantState) (handlers : List String) : Prop :=
  ∃ jobs, Stops S mod tenantID st jobs ∧ jobs.map (·.jobType) = handlers

end

/-! ## One link of the chain -/

variable {S} {mod : LoadedModule} {tenantID : String}

theorem mem_of_candidates {current target : S.Version} {ms : List DataMigration} {cs : List (Candidate S)}
    (h : candidates S current target ms = .ok cs) : ∀ c ∈ cs, c.migration ∈ ms := by
  induction ms generalizing cs with
  | nil =>
    cases h
    intro c hc
    exact absurd hc not_mem_nil
  | cons m ms ih =>
    obtain ⟨o, ho, h⟩ := bind_eq_ok.mp h
    obtain ⟨cs', hcs', h⟩ := bind_eq_ok.mp h
    cases h
    intro c hc
    rcases mem_append.mp hc with hc | hc
    · -- a candidate of this round carries the migration of this round
      have ho' : o = some c := by simpa using hc
      subst ho'
      obtain ⟨_, _, ho⟩ := bind_eq_ok.mp ho
      obtain ⟨_, _, ho⟩ := bind_eq_ok.mp ho
      split at ho
      · cases ho
      obtain ⟨_, _, ho⟩ := bind_eq_ok.mp ho
      cases ho
      exact mem_cons_self
    · exact mem_cons_of_mem _ (ih hcs' c hc)

theorem mem_of_applicable {current target : String} {ms plan : List DataMigration}
    (h : applicableDataMigrations S current target ms = .ok plan) : ∀ m ∈ plan, m ∈ ms := by
  unfold applicableDataMigrations at h
  cases hc : applicableCandidates S current target ms with
  | error e => simp [hc, Except.map] at h
  | ok cs =>
    simp only [hc, Except.map, Except.ok.injEq] at h
    subst h
    obtain ⟨_, _, hc⟩ := bind_eq_ok.mp hc
    obtain ⟨_, _, hc⟩ := bind_eq_ok.mp hc
    obtain ⟨unsorted, hu, hc⟩ := bind_eq_ok.mp hc
    cases hc
    intro m hm
    obtain ⟨c, hc, rfl⟩ := mem_map.mp hm
    exact mem_of_candidates hu c ((perm_insertionSort _ _).mem_iff.mp hc)

variable {next : DataMigration × String} {w : String}

theorem hasHandler_of_firstApplicable (h : firstApplicable S mod w = .ok (some next)) :
    hasDataMigrationHandler mod next.1.handler = true := by
  unfold firstApplicable at h
  split at h
  · cases h
  obtain ⟨plan, hplan, h⟩ := bind_eq_ok.mp h
  cases plan with
  | nil => cases h
  | cons m ms =>
    obtain ⟨v, _, h⟩ := bind_eq_ok.mp h
    cases h
    apply List.any_eq_true.mpr
    exact ⟨m, mem_of_applicable hplan m mem_cons_self, beq_self_eq_true _⟩

/-- The state in which a job that succeeded leaves the tenant. -/
def TenantState.advanced (st : TenantState) (job : WasmJobArgs) : TenantState where
  row := st.row.map fun r => { r with dataMigrationVersion := some job.migrationToVersion }
  inserted := job :: st.inserted

theorem watermark_advanced {st : TenantState} {v : String} (hw : dataMigrationWatermark st.row v = (w, true))
    (job : WasmJobArgs) : dataMigrationWatermark (st.advanced job).row v = (job.migrationToVersion, true) := by
  cases hr : st.row with
  | none => simp [hr, dataMigrationWatermark] at hw
  | some r =>
    by_cases hs : r.currentVersion ≠ v ∨ r.schemaSyncStatus ≠ "ok"
    · simp [hr, dataMigrationWatermark, hs] at hw
    · simp [TenantState.advanced, hr, dataMigrationWatermark, hs]

section

variable {st : TenantState} {w : String} (hw : dataMigrationWatermark st.row mod.version = (w, true))
include hw

theorem not_stops_of_error {e : MigrationError} (hf : firstApplicable S mod w = .error e)
    (jobs : List WasmJobArgs) : ¬ Stops S mod tenantID st jobs := by
  simp [Stops, chain, enqueueApplicableDataMigration, hw, hf, bind, Except.bind]

theorem stops_none_iff (hf : firstApplicable S mod w = .ok none) (jobs : List WasmJobArgs) :
    Stops S mod tenantID st jobs ↔ jobs = [] := by
  simp [Stops, chain, enqueueApplicableDataMigration, hw, hf, bind, Except.bind, pure, Except.pure, runJobs,
    eq_comm]

variable {next : DataMigration × String} (hf : firstApplicable S mod w = .ok (some next))
include hf

theorem stops_duplicate_iff (hd : jobFor mod tenantID w next ∈ st.inserted) (jobs : List WasmJobArgs) :
    Stops S mod tenantID st jobs ↔ jobs = [] := by
  simp [Stops, chain, enqueueApplicableDataMigration, hw, hf, bind, Except.bind, pure, Except.pure, runJobs,
    TenantState.insert, hd, eq_comm]

variable (hd : jobFor mod tenantID w next ∉ st.inserted)
include hd

theorem chain_zero : chain S mod tenantID 0 st = .ok none := by
  simp [chain, enqueueApplicableDataMigration, hw, hf, bind, Except.bind, pure, Except.pure, runJobs,
    TenantState.insert, hd]

/-- A new job runs, and the chain goes on from the state it leaves. -/
theorem chain_succ (fuel : Nat) : chain S mod tenantID (fuel + 1) st =
      (chain S mod tenantID fuel (st.advanced (jobFor mod tenantID w next))).map
        (·.map (jobFor mod tenantID w next :: ·)) := by
  obtain ⟨r, hr⟩ : ∃ r, st.row = some r := by
    cases hr : st.row with
    | none => simp [hr, dataMigrationWatermark] at hw
    | some r => exact ⟨r, rfl⟩
  have hh : hasDataMigrationHandler mod (jobFor mod tenantID w next).jobType = true :=
    hasHandler_of_firstApplicable hf
  have hwork : work S mod tenantID { st with inserted := jobFor mod tenantID w next :: st.inserted }
      (jobFor mod tenantID w next) =
      enqueueApplicableDataMigration S mod tenantID (st.advanced (jobFor mod tenantID w next)) := by
    simp [work, hh, hr, advanceDataMigrationVersion, TenantState.advanced, bind, Except.bind]
  have henq : enqueueApplicableDataMigration S mod tenantID st =
      .ok ({ st with inserted := jobFor mod tenantID w next :: st.inserted },
        some (jobFor mod tenantID w next)) := by
    simp [enqueueApplicableDataMigration, hw, hf, bind, Except.bind, pure, Except.pure, TenantState.insert, hd]
  unfold chain
  rw [henq]
  show (runJobs S mod tenantID (fuel + 1) _ (some _)) = _
  rw [runJobs, hwork]
  cases enqueueApplicableDataMigration S mod tenantID (st.advanced (jobFor mod tenantID w next)) with
  | error e => rfl
  | ok p =>
    obtain ⟨st', job⟩ := p
    show (runJobs S mod tenantID fuel st' job >>= _) = (runJobs S mod tenantID fuel st' job).map _
    cases runJobs S mod tenantID fuel st' job <;> rfl

theorem stops_new_iff (jobs : List WasmJobArgs) : Stops S mod tenantID st jobs ↔
      ∃ rest, jobs = jobFor mod tenantID w next :: rest ∧
        Stops S mod tenantID (st.advanced (jobFor mod tenantID w next)) rest := by
  constructor
  · rintro ⟨fuel, h⟩
    cases fuel with
    | zero => simp [chain_zero hw hf hd] at h
    | succ fuel =>
      rw [chain_succ hw hf hd] at h
      cases hc : chain S mod tenantID fuel (st.advanced (jobFor mod tenantID w next)) with
      | error e => simp [hc, Except.map] at h
      | ok o =>
        simp only [hc, Except.map, Except.ok.injEq, Option.map_eq_some_iff] at h
        obtain ⟨rest, rfl, rfl⟩ := h
        exact ⟨rest, rfl, fuel, hc⟩
  · rintro ⟨rest, rfl, fuel, h⟩
    refine ⟨fuel + 1, ?_⟩
    rw [chain_succ hw hf hd, h]
    rfl

end

/-! ## Whole chains -/

/-- The inserted jobs are those of the watermarks passed. -/
structure Used (mod : LoadedModule) (tenantID : String) (S : Semver) (visited : List String)
    (inserted : List WasmJobArgs) : Prop where
  job_of_mem : ∀ p ∈ visited, ∃ next, firstApplicable S mod p = .ok (some next) ∧
    jobFor mod tenantID p next ∈ inserted
  mem_of_job : ∀ j ∈ inserted, j.migrationFromVersion ∈ visited

variable {visited : List String}

/-- A watermark determines its job, so a job is a duplicate exactly where the walk has been. -/
theorem Used.duplicate_iff {inserted : List WasmJobArgs} (hu : Used mod tenantID S visited inserted)
    (hf : firstApplicable S mod w = .ok (some next)) : jobFor mod tenantID w next ∈ inserted ↔ w ∈ visited := by
  constructor
  · intro h
    exact hu.mem_of_job _ h
  intro h
  obtain ⟨next', hf', hm⟩ := hu.job_of_mem w h
  rw [hf] at hf'
  cases hf'
  exact hm

theorem Used.cons {inserted : List WasmJobArgs} (hu : Used mod tenantID S visited inserted)
    (hf : firstApplicable S mod w = .ok (some next)) :
    Used mod tenantID S (w :: visited) (jobFor mod tenantID w next :: inserted) where
  job_of_mem p hp := by
    rcases mem_cons.mp hp with rfl | hp
    · exact ⟨next, hf, mem_cons_self⟩
    · obtain ⟨next', hf', hm⟩ := hu.job_of_mem p hp
      exact ⟨next', hf', mem_cons_of_mem _ hm⟩
  mem_of_job j hj := by
    rcases mem_cons.mp hj with rfl | hj
    · exact mem_cons_self
    · exact mem_cons_of_mem _ (hu.mem_of_job j hj)

/-- What a chain that has passed `visited` does from a watermark. -/
def Follows (S : Semver) (mod : LoadedModule) (visited : List String) (watermark : String) :
    List (String × String) → Prop
  | [] => firstApplicable S mod watermark = .ok none ∨ watermark ∈ visited
  | (handler, boundary) :: steps =>
    (∃ m, firstApplicable S mod watermark = .ok (some (m, boundary)) ∧ m.handler = handler) ∧
      watermark ∉ visited ∧ Follows S mod (watermark :: visited) boundary steps

/-- Step by step: the chain stops having run these steps exactly if it follows them. -/
theorem stops_iff_follows {st : TenantState} (hw : dataMigrationWatermark st.row mod.version = (w, true))
    (hu : Used mod tenantID S visited st.inserted) (steps : List (String × String)) :
    (∃ jobs, Stops S mod tenantID st jobs ∧ jobs.map (fun j => (j.jobType, j.migrationToVersion)) = steps) ↔
      Follows S mod visited w steps := by
  -- the induction is on the steps; what the chain has inserted is carried by `Used`
  induction steps generalizing st w visited with
  | nil =>
    simp only [map_eq_nil_iff, exists_eq_right, Follows]
    cases hf : firstApplicable S mod w with
    | error e =>
      have hv : w ∉ visited := by
        intro hv
        obtain ⟨_, hf', _⟩ := hu.job_of_mem w hv
        simp [hf] at hf'
      simp [not_stops_of_error hw hf, hv]
    | ok o =>
      cases o with
      | none => simp [stops_none_iff hw hf]
      | some next =>
        by_cases hd : jobFor mod tenantID w next ∈ st.inserted
        · simp [stops_duplicate_iff hw hf hd, (hu.duplicate_iff hf).mp hd]
        · simp [stops_new_iff hw hf hd, (hu.duplicate_iff hf).not.mp hd]
  | cons step steps ih =>
    obtain ⟨handler, boundary⟩ := step
    simp only [Follows]
    cases hf : firstApplicable S mod w with
    | error e => simp [not_stops_of_error hw hf]
    | ok o =>
      cases o with
      | none => simp [stops_none_iff hw hf]
      | some next =>
        by_cases hd : jobFor mod tenantID w next ∈ st.inserted
        · simp [stops_duplicate_iff hw hf hd, (hu.duplicate_iff hf).mp hd]
        have hv : w ∉ visited := (hu.duplicate_iff hf).not.mp hd
        have ih' := ih (watermark_advanced hw (jobFor mod tenantID w next)) (hu.cons hf)
        obtain ⟨m, b⟩ := next
        constructor
        · rintro ⟨jobs, hs, hj⟩
          obtain ⟨rest, rfl, hrun⟩ := (stops_new_iff hw hf hd jobs).mp hs
          obtain ⟨hstep, hrest⟩ := List.cons.inj hj
          cases hstep
          exact ⟨⟨m, rfl, rfl⟩, hv, ih'.mp ⟨rest, hrun, hrest⟩⟩
        rintro ⟨⟨m', hm', rfl⟩, -, h⟩
        cases hm'
        obtain ⟨rest, hs, rfl⟩ := ih'.mpr h
        exact ⟨_, (stops_new_iff hw hf hd _).mpr ⟨rest, rfl, hs⟩, rfl⟩

/-! ## The migrations of an upgrade -/

/-- A declared migration whose constraints and boundary can be read. -/
structure Resolved (S : Semver) where
  migration : DataMigration
  fromConstraint : S.Constraint
  toConstraint : S.Constraint
  boundary : S.Version
  reads_from : S.newConstraint migration.fromVersion = some fromConstraint
  reads_to : S.newConstraint migration.toVersion = some toConstraint
  reads_boundary : S.migrationBoundaryVersion migration.toVersion = some boundary
  /-- the watermark written after the migration is read back as its boundary -/
  reads_text : S.newVersion (S.string boundary) = some boundary

/-- `from_version` admits the version. -/
def Resolved.applies (r : Resolved S) (v : S.Version) : Bool := S.check r.fromConstraint v

def Resolved.candidate (r : Resolved S) : Candidate S := ⟨r.migration, r.boundary⟩

/-- A module whose declared migrations can be read, with handlers of their own, and whose `from_version`s admit
    versions below the migration's own boundary only. -/
structure Upgrade (S : Semver) where
  mod : LoadedModule
  target : S.Version
  declared : List (Resolved S)
  reads_target : S.newVersion mod.version = some target
  declares : mod.dataMigrations = declared.map (·.migration)
  handlers_nodup : (declared.map (·.migration.handler)).Nodup
  below : ∀ r ∈ declared, ∀ v, r.applies v = true → S.le r.boundary v = false

/-- The migrations whose `to_version` admits the target, in the order of their boundaries. -/
def Upgrade.migrations (U : Upgrade S) : List (Resolved S) :=
  (U.declared.filter fun r => S.check r.toConstraint U.target).insertionSort
    fun a b => S.le a.boundary b.boundary = true

/-- Those of them that apply at a version. -/
def Upgrade.planAt (U : Upgrade S) (v : S.Version) : List (Resolved S) := U.migrations.filter (·.applies v)

namespace Upgrade

variable (U : Upgrade S)

theorem mem_declared_of_mem {r : Resolved S} (h : r ∈ U.migrations) : r ∈ U.declared :=
  (mem_filter.mp ((mem_insertionSort _).mp h)).1

theorem migrations_handlers_nodup : (U.migrations.map (·.migration.handler)).Nodup :=
  (((perm_insertionSort _ _).map _).nodup_iff).mpr (U.handlers_nodup.sublist (filter_sublist.map _))

theorem candidates_declared (current : S.Version) (rs : List (Resolved S)) :
    candidates S current U.target (rs.map (·.migration)) =
      .ok ((rs.filter fun r => S.check r.toConstraint U.target && r.applies current).map Resolved.candidate) := by
  induction rs with
  | nil => rfl
  | cons r rs ih =>
    have hround : candidate S current U.target r.migration =
        .ok (if S.check r.toConstraint U.target && r.applies current then some r.candidate else none) := by
      unfold candidate
      rw [r.reads_from, r.reads_to, r.reads_boundary]
      cases hfrom : S.check r.fromConstraint current <;> cases hto : S.check r.toConstraint U.target <;>
        simp [orError, Resolved.applies, Resolved.candidate, hfrom, hto, bind, Except.bind, pure, Except.pure]
    rw [map_cons, candidates, hround, ih, filter_cons]
    split <;> rfl

section

variable (hS : S.Ordered) {w : String} {current : S.Version} (hcurrent : S.newVersion w = some current)
include hS

theorem migrations_pairwise : U.migrations.Pairwise fun a b => S.le a.boundary b.boundary = true := by
  have htotal := hS.total_on Resolved.boundary
  have htrans := hS.trans_on Resolved.boundary
  exact pairwise_insertionSort _ _

include hcurrent

/-- The plan the source computes: filtering before the sort or after it makes no difference. -/
theorem applicable_eq : applicableDataMigrations S w U.mod.version U.mod.dataMigrations =
    .ok ((U.planAt current).map (·.migration)) := by
  have htotal := hS.total_on Resolved.boundary
  have htrans := hS.trans_on Resolved.boundary
  have hsorted : U.planAt current =
      (U.declared.filter fun r => S.check r.toConstraint U.target && r.applies current).insertionSort
        fun a b => S.le a.boundary b.boundary = true := by
    rw [planAt, migrations, filter_insertionSort, filter_filter]
    simp only [Bool.and_comm]
  rw [hsorted, applicableDataMigrations, applicableCandidates, hcurrent, U.reads_target, U.declares]
  simp only [orError, bind, Except.bind, candidates_declared, pure, Except.pure, Except.map]
  rw [← map_insertionSort (fun a b => S.le a.boundary b.boundary = true) _ Resolved.candidate _
    fun _ _ _ _ => Iff.rfl, map_map]
  rfl

theorem firstApplicable_eq : firstApplicable S U.mod w =
    .ok ((U.migrations.find? (·.applies current)).map fun r => (r.migration, S.string r.boundary)) := by
  unfold firstApplicable
  split
  · rename_i hnone
    have hdeclared : U.declared = [] := map_eq_nil_iff.mp (U.declares ▸ hnone)
    simp [migrations, hdeclared]
  rw [U.applicable_eq hS hcurrent, ← head?_filter, ← planAt]
  cases U.planAt current with
  | nil => rfl
  | cons r rest => simp [bind, Except.bind, pure, Except.pure, orError, r.reads_boundary]

end

/-- **The watermark rises from job to job**, so no job is a duplicate: the chain is the walk. -/
theorem follows_iff_walk (hS : S.Ordered) {w : String} {current : S.Version} (hcurrent : S.newVersion w = some current)
    (hrisen : ∀ u ∈ visited, ∀ v, S.newVersion u = some v → S.le current v = false)
    (steps : List (String × String)) :
    Follows S U.mod visited w steps ↔
      ∃ rs, Walk Resolved.applies Resolved.boundary U.migrations current rs ∧
        rs.map (fun r => (r.migration.handler, S.string r.boundary)) = steps := by
  have hnew : w ∉ visited := fun hmem => by simpa [hS.refl] using hrisen w hmem current hcurrent
  induction steps generalizing visited w current with
  | nil =>
    simp only [Follows, U.firstApplicable_eq hS hcurrent, hnew, or_false, map_eq_nil_iff, exists_eq_right, Walk,
      Except.ok.injEq, Option.map_eq_none_iff]
  | cons step steps ih =>
    obtain ⟨handler, boundary⟩ := step
    -- one more watermark is behind the walk: the one the first migration was applicable at
    have hnext (r : Resolved S) (hr : U.migrations.find? (·.applies current) = some r) :
        Follows S U.mod (w :: visited) (S.string r.boundary) steps ↔
          ∃ rs, Walk Resolved.applies Resolved.boundary U.migrations r.boundary rs ∧
            rs.map (fun r => (r.migration.handler, S.string r.boundary)) = steps := by
      have hup : S.le r.boundary current = false :=
        U.below r (U.mem_declared_of_mem (mem_of_find?_eq_some hr)) _ (find?_eq_some_iff_append.mp hr).1
      have hrisen' : ∀ u ∈ w :: visited, ∀ v, S.newVersion u = some v → S.le r.boundary v = false := by
        intro u hu v hv
        rcases mem_cons.mp hu with rfl | hu
        · cases hcurrent.symm.trans hv
          exact hup
        by_contra hle
        have hpast := hS.trans _ _ _ ((hS.total current r.boundary).resolve_right (by simp [hup])) (by simpa using hle)
        simp [hrisen u hu v hv] at hpast
      refine ih r.reads_text hrisen' fun hmem => ?_
      simpa [hS.refl] using hrisen' _ hmem _ r.reads_text
    simp only [Follows, U.firstApplicable_eq hS hcurrent, hnew, not_false_eq_true, true_and, Except.ok.injEq,
      Option.map_eq_some_iff, map_eq_cons_iff]
    constructor
    · rintro ⟨⟨m, ⟨r, hr, heq⟩, hm⟩, hrest⟩
      cases heq
      obtain ⟨rs, hwalk, rfl⟩ := (hnext r hr).mp hrest
      exact ⟨r :: rs, ⟨hr, hwalk⟩, r, rs, rfl, by rw [hm], rfl⟩
    · rintro ⟨_, hwalk, r, rs, rfl, heq, rfl⟩
      cases heq
      exact ⟨⟨_, ⟨r, hwalk.1, rfl⟩, rfl⟩, (hnext r hwalk.1).mpr ⟨rs, hwalk.2, rfl⟩⟩

theorem runs_iff_walk (hS : S.Ordered) {w : String} {current : S.Version} {row : Option SchemaVersion}
    (hw : dataMigrationWatermark row U.mod.version = (w, true)) (hcurrent : S.newVersion w = some current)
    (handlers : List String) : Runs S U.mod tenantID ⟨row, []⟩ handlers ↔
      ∃ rs, Walk Resolved.applies Resolved.boundary U.migrations current rs ∧
        rs.map (·.migration.handler) = handlers := by
  have hused : Used U.mod tenantID S [] [] :=
    ⟨fun p hp => absurd hp not_mem_nil, fun j hj => absurd hj not_mem_nil⟩
  have hstart : dataMigrationWatermark (TenantState.mk row []).row U.mod.version = (w, true) := hw
  have hsteps (steps : List (String × String)) :=
    (stops_iff_follows hstart hused steps).trans
      (U.follows_iff_walk hS hcurrent (fun u hu => absurd hu not_mem_nil) steps)
  constructor
  · rintro ⟨jobs, hstops, rfl⟩
    obtain ⟨rs, hwalk, hrs⟩ := (hsteps _).mp ⟨jobs, hstops, rfl⟩
    refine ⟨rs, hwalk, ?_⟩
    simpa [Function.comp_def] using congrArg (map Prod.fst) hrs
  · rintro ⟨rs, hwalk, rfl⟩
    obtain ⟨jobs, hstops, hjobs⟩ := (hsteps _).mpr ⟨rs, hwalk, rfl⟩
    refine ⟨jobs, hstops, ?_⟩
    simpa [Function.comp_def] using congrArg (map Prod.fst) hjobs

/-- Handlers name migrations, so a walk with the planned handlers is the plan. -/
theorem exists_walk_planAt_iff (current : S.Version) :
    (∃ rs, Walk Resolved.applies Resolved.boundary U.migrations current rs ∧
      rs.map (·.migration.handler) = (U.planAt current).map (·.migration.handler)) ↔
    Walk Resolved.applies Resolved.boundary U.migrations current (U.planAt current) := by
  constructor
  · rintro ⟨rs, hwalk, hrs⟩
    have hinj := inj_on_of_nodup_map U.migrations_handlers_nodup
    have heq : rs = U.planAt current := by
      refine ext_getElem (by simpa using congrArg length hrs) fun i h h' => ?_
      refine hinj (hwalk.subset (getElem_mem h)) (mem_of_mem_filter (getElem_mem h')) ?_
      simpa [h, h'] using congrArg (fun l => l[i]?) hrs
    exact heq ▸ hwalk
  · intro hwalk
    exact ⟨_, hwalk, rfl⟩

end Upgrade

/-- Two upgrades of a module, each for the tenants below its version. -/
def twoUpgrades (below since version : String) : LoadedModule where
  name := "crm"
  version := version
  dataMigrations := [⟨"<1.1.0", ">=1.1.0", "", "split_names"⟩, ⟨below, since, "", "fill_scores"⟩]

def splitNames : Resolved Semver.triples where
  migration := ⟨"<1.1.0", ">=1.1.0", "", "split_names"⟩
  fromConstraint := [(.lt, [1, 1, 0])]
  toConstraint := [(.ge, [1, 1, 0])]
  boundary := [1, 1, 0]
  reads_from := rfl
  reads_to := rfl
  reads_boundary := rfl
  reads_text := rfl

def fillScores : Resolved Semver.triples where
  migration := ⟨"<1.2.0", ">=1.2.0", "", "fill_scores"⟩
  fromConstraint := [(.lt, [1, 2, 0])]
  toConstraint := [(.ge, [1, 2, 0])]
  boundary := [1, 2, 0]
  reads_from := rfl
  reads_to := rfl
  reads_boundary := rfl
  reads_text := rfl

def twoBoundaries : Upgrade Semver.triples where
  mod := twoUpgrades "<1.2.0" ">=1.2.0" "1.2.0"
  target := [1, 2, 0]
  declared := [splitNames, fillScores]
  reads_target := rfl
  declares := rfl
  handlers_nodup := by decide
  below r hr v happ := by
    rcases mem_pair.mp hr with rfl | rfl <;>
      simpa [Resolved.applies, splitNames, fillScores, Semver.triples, Comparison.holds] using happ

end GoErp.Schema
