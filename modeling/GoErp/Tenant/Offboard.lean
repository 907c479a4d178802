import GoErp.Lib.Run

/-!
# `Tenant.Offboard` — the status of a tenant and its deletion, interleaved

`tenant/store.go` keeps the status in one row; operators suspend and unsuspend it, `OffboardTenantWorkflow`
(`tenant/offboard/workflow.go`) and `ImmediateWorker.Work` (`tenant/offboard/job.go`) delete the tenant's data and
mark the row deleted at the end. A step of a worker is one statement or one deletion activity; one whose
acknowledgement was lost runs again (`Event.retry`).

`UpdateStatus` has no guard, and the job deletes without the mark that `CancelOffboarding` respects. `Apart` says that
no such step falls into a deletion.
-/

namespace GoErp.Offboard

open Lib.Run List

/-! ## The row -/

/-- The states of a tenant's row. -/
inductive Status where
  | provisioning
  | active
  | suspended
  | offboarding
  | deleted
deriving DecidableEq, Repr

/-- The columns of `system.tenants` that the status operations read or write; times are those of `NOW()`. -/
structure Tenant where
  status : Status
  activatedAt : Option Nat
  suspendedAt : Option Nat
  suspendReason : Option String
  deletedAt : Option Nat
  offboardDeletionStartedAt : Option Nat
deriving DecidableEq, Repr

/-- The `UPDATE` has no condition on the status it replaces. -/
def Tenant.updateStatus (t : Tenant) (now : Nat) (status : Status) (reason : Option String) : Tenant :=
  { t with
    status := status
    activatedAt := if status = .active ∧ t.activatedAt = none then some now else t.activatedAt
    suspendedAt := if status = .suspended then some now else t.suspendedAt
    suspendReason := if status = .suspended then reason else t.suspendReason
    deletedAt := if status = .deleted ∧ t.deletedAt = none then some now else t.deletedAt }

/-- `none` is `ErrTenantNotFound`: no row matched. -/
def Tenant.beginOffboarding (t : Tenant) : Option Tenant :=
  if t.status = .active then some { t with status := .offboarding } else none

/-- The row and whether a row was updated. -/
def Tenant.markDeletionStarted (t : Tenant) (now : Nat) : Tenant × Bool :=
  if t.status = .offboarding ∧ t.offboardDeletionStartedAt = none then
    ({ t with offboardDeletionStartedAt := some now }, true)
  else (t, false)

/-- `none` is `ErrOffboardNotCancellable`. -/
def Tenant.cancelOffboarding (t : Tenant) : Option Tenant :=
  if t.status = .offboarding ∧ t.offboardDeletionStartedAt = none then some { t with status := .active } else none

theorem Tenant.beginOffboarding_eq_some {t t' : Tenant} (h : t.beginOffboarding = some t') :
    t.status = .active ∧ t'.status = .offboarding := by
  unfold beginOffboarding at h
  split at h
  · cases h
    exact ⟨‹_›, rfl⟩
  · cases h

/-- The mark is set on an offboarding tenant only, and leaves the status as it is. -/
theorem Tenant.markDeletionStarted_spec (t : Tenant) (now : Nat) : (t.markDeletionStarted now).1.status = t.status ∧
      ((t.markDeletionStarted now).2 = true → t.status = .offboarding) := by
  unfold markDeletionStarted
  split
  · exact ⟨rfl, fun _ => (‹_ ∧ _›).1⟩
  · exact ⟨rfl, fun h => absurd h (by simp)⟩

/-! ## Workers -/

/-- The deletion activities, in the order both workers run them. -/
inductive Deletion where
  | searchIndexes
  | cache
  | files
  | schema
deriving DecidableEq, Repr

/-- Who offboards. -/
inductive Kind where
  /-- `OffboardTenantWorkflow` -/
  | workflow
  /-- one attempt of `ImmediateWorker.Work` -/
  | job
deriving DecidableEq, Repr

inductive Pc where
  | start
  /-- the workflow's grace period; the job's read of an active tenant, before `MarkOffboarding` -/
  | waiting
  | deleting (d : Deletion)
  /-- before `MarkTenantDeleted` -/
  | finishing
  | stopped
deriving DecidableEq, Repr

def Deletion.next : Deletion → Pc
  | .searchIndexes => .deleting .cache
  | .cache => .deleting .files
  | .files => .deleting .schema
  | .schema => .finishing

structure Worker where
  kind : Kind
  pc : Pc
deriving DecidableEq, Repr

/-- What one step of a worker leaves: the row, where the worker goes on, and whether it deleted something. -/
structure Effect where
  tenant : Tenant
  pc : Pc
  deletes : Bool

/-- `MarkOffboarding`; the worker stops when the row is not active. -/
def markOffboarding (t : Tenant) (pc : Pc) : Effect :=
  match t.beginOffboarding with
  | none => ⟨t, .stopped, false⟩
  | some t' => ⟨t', pc, false⟩

/-- What a worker's next step does to the row it finds. -/
def Worker.effect (w : Worker) (now : Nat) (t : Tenant) : Effect :=
  match w.pc, w.kind with
  | .start, .workflow => markOffboarding t .waiting
  | .waiting, .workflow =>
    let (t', started) := t.markDeletionStarted now
    ⟨t', if started then .deleting .searchIndexes else .stopped, false⟩
  | .start, .job =>
    -- `switch t.Status` on the status just read
    match t.status with
    | .deleted => ⟨t, .stopped, false⟩
    | .active => ⟨t, .waiting, false⟩
    | .offboarding => ⟨t, .deleting .searchIndexes, false⟩
    | .provisioning | .suspended => ⟨t, .stopped, false⟩
  | .waiting, .job => markOffboarding t (.deleting .searchIndexes)
  | .deleting d, _ => ⟨t, d.next, true⟩
  | .finishing, _ => ⟨t.updateStatus now .deleted none, .stopped, false⟩
  | .stopped, _ => ⟨t, .stopped, false⟩

/-- Where a worker goes on after a step whose acknowledgement was lost. -/
def Worker.afterLostAck (w : Worker) : Pc :=
  match w.kind with
  | .workflow => w.pc
  | .job => .start

/-! ## The system -/

/-- The tenant's row and its workers. -/
structure System where
  tenant : Tenant
  workers : List Worker
  /-- ghost: a deletion activity has run -/
  touched : Bool
deriving DecidableEq

def System.init (t : Tenant) : System := ⟨t, [], false⟩

inductive Event where
  | suspend (now : Nat) (reason : String)
  | unsuspend (now : Nat)
  | beginOffboarding
  | cancelOffboarding
  /-- `StartOffboard`, or a new attempt of the job -/
  | startOffboard (kind : Kind)
  | advance (i : Nat) (now : Nat)
  /-- the worker's step takes effect, but the worker repeats it -/
  | retry (i : Nat) (now : Nat)
deriving DecidableEq, Repr

/-- A worker's step, after which the worker is at `pc`. -/
def System.work (s : System) (i : Nat) (w : Worker) (now : Nat) (pc : Pc) : System where
  tenant := (w.effect now s.tenant).tenant
  workers := s.workers.set i { w with pc }
  touched := s.touched || (w.effect now s.tenant).deletes

/-- An operation that matches no row leaves it as it is. -/
def System.step (s : System) : Event → Option System
  | .suspend now reason => some { s with tenant := s.tenant.updateStatus now .suspended (some reason) }
  | .unsuspend now => some { s with tenant := s.tenant.updateStatus now .active none }
  | .beginOffboarding => some { s with tenant := s.tenant.beginOffboarding.getD s.tenant }
  | .cancelOffboarding => some { s with tenant := s.tenant.cancelOffboarding.getD s.tenant }
  | .startOffboard kind => some { s with workers := s.workers ++ [⟨kind, .start⟩] }
  | .advance i now => (s.workers[i]?).map fun w => s.work i w now (w.effect now s.tenant).pc
  | .retry i now => (s.workers[i]?).map fun w => s.work i w now w.afterLostAck

def Pc.isDeleting : Pc → Bool
  | .deleting _ => true
  | _ => false

/-- The event runs a deletion activity. -/
def System.deletes (s : System) : Event → Bool
  | .advance i _ | .retry i _ => (s.workers[i]?).any (·.pc.isDeleting)
  | _ => false

/-- Deletion hits no live tenant: the activities run while the tenant is offboarding only. -/
def DeletesOffboarding (s : System) (e : Event) : Prop :=
  s.deletes e = true → s.tenant.status = .offboarding

instance (s : System) (e : Event) : Decidable (DeletesOffboarding s e) := by
  unfold DeletesOffboarding
  infer_instance

/-- Deletion is final. -/
def System.Final (s : System) : Prop :=
  s.touched = true → s.tenant.status ≠ .active ∧ s.tenant.status ≠ .suspended

/-- No deletion is under way and none has run. -/
def System.Quiet (s : System) : Prop :=
  s.touched = false ∧ ∀ w ∈ s.workers, w.pc.isDeleting = false

/-- The steps that are not guarded by the code keep out of a deletion: the status is changed by an operator while
no deletion is under way, so is an offboarding cancelled that has no mark, and a worker marks the tenant deleted while
no other is still deleting. -/
def Apart (s : System) : Event → Prop
  | .suspend _ _ | .unsuspend _ => s.Quiet
  | .cancelOffboarding => s.tenant.offboardDeletionStartedAt = none → s.Quiet
  | .advance i _ | .retry i _ =>
    (s.workers[i]?).any (·.pc == .finishing) = true → ∀ w ∈ s.workers, w.pc.isDeleting = false
  | .beginOffboarding | .startOffboard _ => True

instance (s : System) (e : Event) : Decidable (Apart s e) := by
  unfold Apart System.Quiet
  cases e <;> infer_instance

/-! ## The invariant -/

/-- While a worker deletes, the tenant is offboarding; once something was deleted, it is offboarding or deleted. -/
structure Inv (s : System) : Prop where
  deleting : ∀ w ∈ s.workers, w.pc.isDeleting = true → s.tenant.status = .offboarding
  touched : s.touched = true → s.tenant.status = .offboarding ∨ s.tenant.status = .deleted
  finishing : ∀ w ∈ s.workers, w.pc = .finishing → s.touched = true

theorem inv_init (t : Tenant) : Inv (System.init t) :=
  ⟨fun _ hw => absurd hw not_mem_nil, fun h => absurd h (by simp [System.init]),
    fun _ hw => absurd hw not_mem_nil⟩

variable {s : System}

theorem Inv.final (h : Inv s) : s.Final := by
  intro ht
  rcases h.touched ht with hs | hs <;> simp [hs]

theorem Inv.deletesOffboarding (h : Inv s) (e : Event) : DeletesOffboarding s e := by
  intro hd
  have key : ∀ i : Nat, (s.workers[i]?).any (·.pc.isDeleting) = true → s.tenant.status = .offboarding := by
    intro i hi
    cases hw : s.workers[i]? with
    | none => simp [hw] at hi
    | some w => exact h.deleting w (mem_of_getElem? hw) (by simpa [hw] using hi)
  cases e with
  | advance i now => exact key i hd
  | retry i now => exact key i hd
  | suspend now reason => exact absurd hd (by simp [System.deletes])
  | unsuspend now => exact absurd hd (by simp [System.deletes])
  | beginOffboarding => exact absurd hd (by simp [System.deletes])
  | cancelOffboarding => exact absurd hd (by simp [System.deletes])
  | startOffboard kind => exact absurd hd (by simp [System.deletes])

/-- A change of the row alone, made while nothing is being deleted. -/
theorem Inv.quiet (h : Inv s) (hq : s.Quiet) (t : Tenant) : Inv { s with tenant := t } where
  deleting w hw hd := absurd (hq.2 w hw) (by simp [hd])
  touched ht := absurd hq.1 (by simp_all)
  finishing := h.finishing

/-- What a step of a worker does to the row and where it leads. -/
structure Effect.Sound (t : Tenant) (w : Worker) (e : Effect) : Prop where
  /-- the row changes from active to offboarding, or the worker marks it deleted -/
  status : e.tenant.status = t.status ∨ (t.status = .active ∧ e.tenant.status = .offboarding) ∨
    (w.pc = .finishing ∧ e.tenant.status = .deleted)
  /-- a worker starts to delete an offboarding tenant only -/
  enters : e.pc.isDeleting = true → w.pc.isDeleting = true ∨ e.tenant.status = .offboarding
  finishes : e.pc = .finishing → e.deletes = true
  deletes : e.deletes = true ↔ w.pc.isDeleting = true

theorem markOffboarding_sound {t : Tenant} {w : Worker} {pc : Pc} (hpc : pc ≠ .finishing)
    (hw : w.pc.isDeleting = false) : (markOffboarding t pc).Sound t w := by
  unfold markOffboarding
  cases h : t.beginOffboarding with
  | none => exact ⟨.inl rfl, by simp [Pc.isDeleting], by simp, by simp [hw]⟩
  | some t' =>
    obtain ⟨hactive, hoff⟩ := Tenant.beginOffboarding_eq_some h
    exact ⟨.inr (.inl ⟨hactive, hoff⟩), fun _ => .inr hoff, by simp [hpc], by simp [hw]⟩

theorem Worker.effect_sound (w : Worker) (now : Nat) (t : Tenant) : (w.effect now t).Sound t w := by
  obtain ⟨kind, pc⟩ := w
  cases pc with
  | start =>
    cases kind with
    | workflow => exact markOffboarding_sound (by simp) rfl
    | job =>
      -- the job only reads the row here
      cases hs : t.status <;> simp only [effect, hs] <;>
        exact ⟨.inl rfl, by simp [Pc.isDeleting, hs], by simp, by simp [Pc.isDeleting]⟩
  | waiting =>
    cases kind with
    | workflow =>
      obtain ⟨hstatus, hstarted⟩ := t.markDeletionStarted_spec now
      refine ⟨.inl hstatus, ?_, ?_, by simp [effect, Pc.isDeleting]⟩
      · intro hd
        by_cases hm : (t.markDeletionStarted now).2 = true
        · exact .inr (hstatus.trans (hstarted hm))
        · simp [effect, hm, Pc.isDeleting] at hd
      · by_cases hm : (t.markDeletionStarted now).2 = true <;> simp [effect, hm]
    | job => exact markOffboarding_sound (by simp) rfl
  | deleting d =>
    exact ⟨.inl rfl, fun _ => .inl rfl, fun _ => rfl, by simp [effect, Pc.isDeleting]⟩
  | finishing => exact ⟨.inr (.inr ⟨rfl, rfl⟩), by simp [effect, Pc.isDeleting], by simp [effect],
      by simp [effect, Pc.isDeleting]⟩
  | stopped => exact ⟨.inl rfl, by simp [effect, Pc.isDeleting], by simp [effect], by simp [effect, Pc.isDeleting]⟩

/-- Where a worker may go on after a step: where the step leads, back to the start, or on the spot. -/
theorem Inv.work (h : Inv s) {i : Nat} {w : Worker} (hw : w ∈ s.workers) {now : Nat} {pc : Pc}
    (hpc : pc = (w.effect now s.tenant).pc ∨ pc = .start ∨ pc = w.pc)
    (hfin : w.pc = .finishing → ∀ w' ∈ s.workers, w'.pc.isDeleting = false) : Inv (s.work i w now pc) := by
  have he := w.effect_sound now s.tenant
  -- the row of a tenant under deletion stays: only `finishing` could change it, and then nobody deletes
  have hkeep : ∀ w' ∈ s.workers, w'.pc.isDeleting = true →
      (w.effect now s.tenant).tenant.status = .offboarding := by
    intro w' hw' hd
    have hoff := h.deleting w' hw' hd
    rcases he.status with hs | ⟨ha, -⟩ | ⟨hf, -⟩
    · exact hs.trans hoff
    · exact absurd (hoff.symm.trans ha) (by decide)
    · exact absurd (hfin hf w' hw') (by simp [hd])
  refine ⟨?_, ?_, ?_⟩
  · intro w' hw' hd
    rcases mem_or_eq_of_mem_set hw' with hw' | rfl
    · exact hkeep w' hw' hd
    rcases hpc with rfl | rfl | rfl
    · rcases he.enters hd with hdel | hoff
      · exact hkeep w hw hdel
      · exact hoff
    · exact absurd hd (by simp [Pc.isDeleting])
    · exact hkeep w hw hd
  · intro ht
    rcases Bool.or_eq_true_iff.mp ht with ht | hdel
    · show (w.effect now s.tenant).tenant.status = .offboarding ∨ (w.effect now s.tenant).tenant.status = .deleted
      rcases he.status with hs | ⟨-, hoff⟩ | ⟨-, hdeleted⟩
      · rw [hs]
        exact h.touched ht
      · exact .inl hoff
      · exact .inr hdeleted
    · exact .inl (hkeep w hw (he.deletes.mp hdel))
  · intro w' hw' hf
    show (s.touched || _) = true
    rcases mem_or_eq_of_mem_set hw' with hw' | rfl
    · rw [h.finishing w' hw' hf, Bool.true_or]
    rcases hpc with rfl | rfl | rfl
    · rw [he.finishes hf, Bool.or_true]
    · cases hf
    · rw [h.finishing w hw hf, Bool.true_or]

theorem Worker.afterLostAck_eq (w : Worker) : w.afterLostAck = .start ∨ w.afterLostAck = w.pc := by
  unfold afterLostAck
  split
  · exact .inr rfl
  · exact .inl rfl

theorem Inv.beginOffboarding (h : Inv s) : Inv { s with tenant := s.tenant.beginOffboarding.getD s.tenant } := by
  cases hb : s.tenant.beginOffboarding with
  | none => exact h
  | some t =>
    obtain ⟨-, hoff⟩ := Tenant.beginOffboarding_eq_some hb
    exact ⟨fun _ _ _ => hoff, fun _ => .inl hoff, h.finishing⟩

/-- `CancelOffboarding` respects the mark: a deletion that has set it goes on. -/
theorem Inv.cancelOffboarding (h : Inv s) (hq : s.tenant.offboardDeletionStartedAt = none → s.Quiet) :
    Inv { s with tenant := s.tenant.cancelOffboarding.getD s.tenant } := by
  by_cases hmark : s.tenant.offboardDeletionStartedAt = none
  · exact h.quiet (hq hmark) _
  · have hnone : s.tenant.cancelOffboarding = none := if_neg fun hc => hmark hc.2
    rw [hnone]
    exact h

theorem inv_step {s' : System} {e : Event} (h : Inv s) (ha : Apart s e) (hs : s.step e = some s') : Inv s' := by
  cases e with
  | suspend now reason =>
    cases hs
    exact h.quiet ha _
  | unsuspend now =>
    cases hs
    exact h.quiet ha _
  | beginOffboarding =>
    cases hs
    exact h.beginOffboarding
  | cancelOffboarding =>
    cases hs
    exact h.cancelOffboarding ha
  | startOffboard kind =>
    cases hs
    refine ⟨fun w hw hd => ?_, h.touched, fun w hw hf => ?_⟩
    · rcases mem_append.mp hw with hw | hw
      · exact h.deleting w hw hd
      · rw [mem_singleton.mp hw] at hd
        cases hd
    rcases mem_append.mp hw with hw | hw
    · exact h.finishing w hw hf
    · rw [mem_singleton.mp hw] at hf
      cases hf
  | advance i now =>
    obtain ⟨w, hw, rfl⟩ := Option.map_eq_some_iff.mp hs
    exact h.work (mem_of_getElem? hw) (.inl rfl) fun hf => ha (by simp [hw, hf])
  | retry i now =>
    obtain ⟨w, hw, rfl⟩ := Option.map_eq_some_iff.mp hs
    exact h.work (mem_of_getElem? hw) (.inr w.afterLostAck_eq) fun hf => ha (by simp [hw, hf])

/-! ## Every run -/

/-- **Deletion is final and hits no live tenant**, in every run of any number of workers and operators in which
no unguarded change of the status falls into a deletion. -/
theorem deletion_final (t : Tenant) (es : List Event) (hok : Along System.step Apart (System.init t) es) :
    Along System.step DeletesOffboarding (System.init t) es ∧
      ∀ s, run System.step (System.init t) es = some s → s.Final := by
  constructor
  · exact along_invariant (fun _ _ _ => inv_step) (fun _ e h _ => h.deletesOffboarding e) (inv_init t) hok
  · intro s hrun
    exact (run_invariant (fun _ _ _ => inv_step) (inv_init t) hok hrun).final

def activeTenant : Tenant := ⟨.active, some 0, none, none, none, none⟩

/-- An offboarding that is cancelled, and then one that runs to its end, although an operator tries to cancel it, beside
a job that starts too late. -/
def orderlyOffboarding : List Event :=
  [.startOffboard .workflow, .advance 0 1, .cancelOffboarding, .suspend 2 "unpaid", .unsuspend 3, .advance 0 4,
    .startOffboard .workflow, .advance 1 5, .advance 1 6, .advance 1 7, .cancelOffboarding, .retry 1 8, .advance 1 9,
    .advance 1 10, .advance 1 11, .advance 1 12, .startOffboard .job, .advance 2 13]

theorem deletion_final_orderly : Along System.step DeletesOffboarding (System.init activeTenant) orderlyOffboarding ∧
      (run System.step (System.init activeTenant) orderlyOffboarding).map (·.tenant.status) = some .deleted :=
  ⟨(deletion_final activeTenant orderlyOffboarding (by decide)).1, by decide⟩

/-- The workflow has marked the deletion as started; an operator who unsuspends the tenant makes it active, and
the workflow goes on deleting it. -/
def unsuspendedWhileDeleting : List Event :=
  [.startOffboard .workflow, .advance 0 1, .advance 0 2, .unsuspend 3, .advance 0 4]

theorem unsuspend_revives_deleted : ¬ ∀ t es, Along System.step DeletesOffboarding (System.init t) es ∧
      ∀ s, run System.step (System.init t) es = some s → s.Final := by
  intro h
  have hdel := (h activeTenant unsuspendedWhileDeleting).1
  revert hdel
  decide

end GoErp.Offboard
