import Mathlib.Algebra.Ring.Nat
import GoErp.Event.Registry
import GoErp.Lib.Hex

/-!
# `Event.Delivery` — from an emission to the handler of a subscriber

The emitter may call the synchronous subscribers inline (`dispatchSyncSubscribers`) and says so in the delivery job
(`SyncDispatched`); the fan-out worker (`eventdelivery/worker.go`) inserts a job for every subscriber that was not
called inline; and the delivery worker (`eventdelivery/subscriber_worker.go`) looks the subscription up again, and the
user who emitted the event, before it invokes the handler.

The snapshot is fixed, and what a handler returns is the parameter `invoke`. `Directory` is what the worker finds of
tenants and their members when the job runs.
-/

namespace GoErp.Event

open Lib List

/-- A published set of modules: manifests are accepted and every module that has not failed has a pool. -/
structure Snapshot where
  modules : Module.Modules
  valid : ∀ name m, modules.get? name = some m → m.status ≠ .failed →
    Module.validateEventSubscriptions m.manifest = .ok () ∧ m.manifest.version ≠ "" ∧ m.pool = true

def Snapshot.eventRegistry (snap : Snapshot) : EventRegistry := buildEventRegistry snap.modules

def Snapshot.subscribers (snap : Snapshot) (eventName : String) (version : Int) : List EventSubscription :=
  snap.eventRegistry.subscribersOf eventName version

/-! ## Emission -/

/-- `event.Envelope`. -/
structure Envelope where
  id : String
  name : String
  version : Int
  emitterModule : String
  tenantID : String
  userID : String
  traceID : String
  spanID : String
  traceFlags : Nat
  emittedAt : Nat
  payload : List UInt8
deriving DecidableEq, Repr

structure EventDeliveryArgs where
  event : Envelope
  syncDispatched : Bool
  transactional : Bool
deriving DecidableEq, Repr

/-- The ways an event is emitted: the two host functions, the events of records and models
(`emitRecordEventPayload`, `emitDeclaredLifecycleEvent`) and those of workflow transitions. -/
inductive EmissionPath where
  | emit (sync : Bool)
  | emitTx (sync : Bool)
  | lifecycle
  | workflow
deriving DecidableEq, Repr

/-- What the host functions check of their caller. -/
structure Caller where
  /-- the capability `event.emit` -/
  capEventEmit : Bool
  /-- `tx_id` names an open transaction -/
  transaction : Bool
  /-- the synchronous dispatcher is installed -/
  dispatcher : Bool

inductive EmitError where
  | capabilityDenied
  | syncNotAllowed
  | noTransaction
  | undeclared (name : String) (version : Int)
  | payloadTooLarge (bytes : Nat)
  | unavailable
  /-- `%d of %d synchronous subscribers failed` -/
  | dispatchFailed (failures total : Nat)
deriving DecidableEq, Repr

/-- What became of a handler. -/
inductive Outcome where
  | status (code : Int)
  | error
  | timedOut
deriving DecidableEq, Repr

/-- The module is loaded and ready, and has a pool. -/
def Snapshot.canRun (snap : Snapshot) (moduleName : String) : Bool :=
  (snap.modules.get? moduleName).any fun m => m.status = .ready && m.pool

/-- `SyncDispatcher.DispatchSync`. -/
def dispatchSync (snap : Snapshot) (invoke : EventSubscription → Outcome) (sub : EventSubscription) : Outcome :=
  if snap.canRun sub.moduleName then invoke sub else .error

/-- What `dispatchSyncSubscribers` did: the subscribers whose handler ran, and its counts. -/
structure Dispatched where
  called : List EventSubscription
  failures : Nat
  total : Nat

/-- Every synchronous subscriber is dispatched, in order of registration, whatever became of those before. -/
def dispatchSyncSubscribers (snap : Snapshot) (invoke : EventSubscription → Outcome) (name : String)
    (version : Int) : Dispatched :=
  let subs := (snap.subscribers name version).filter (!·.async)
  { called := subs.filter fun sub => snap.canRun sub.moduleName
    failures := subs.countP fun sub => dispatchSync snap invoke sub ≠ .status 0
    total := subs.length }

def maxPayloadBytes : Nat := 2 ^ 20

/-- The limit is on the bytes of the payload. -/
def validatePayload (payload : List UInt8) : Except EmitError Unit :=
  if payload.length > maxPayloadBytes then .error (.payloadTooLarge payload.length) else .ok ()

/-- The subscribers called inline, and the delivery job. -/
structure Emitted where
  inline : List EventSubscription
  job : EventDeliveryArgs
deriving DecidableEq, Repr

/-- `input.Version <= 0` stands for the default version. -/
def Envelope.withDefaultVersion (e : Envelope) : Envelope :=
  if e.version ≤ 0 then { e with version := Module.defaultEventVersion } else e

/-- An event must be among those its emitter declares, in this version. -/
def checkDeclared (snap : Snapshot) (e : Envelope) : Except EmitError Unit :=
  if snap.eventRegistry.moduleEmits e.emitterModule e.name e.version then .ok ()
  else .error (.undeclared e.name e.version)

def require (ok : Bool) (e : EmitError) : Except EmitError Unit := if ok then .ok () else .error e

/-- `makeEventEmitTx`. -/
def emitTx (snap : Snapshot) (caller : Caller) (sync : Bool) (input : Envelope) : Except EmitError Emitted := do
  require caller.capEventEmit .capabilityDenied
  let e := input.withDefaultVersion
  require (!sync) .syncNotAllowed
  require caller.transaction .noTransaction
  checkDeclared snap e
  validatePayload e.payload
  return ⟨[], ⟨e, false, true⟩⟩

/-- The inline calls of `makeEventEmit`; a failure of one of them leaves no delivery job. -/
def dispatchInline (snap : Snapshot) (invoke : EventSubscription → Outcome) (caller : Caller) (sync : Bool)
    (e : Envelope) : Except EmitError (List EventSubscription) :=
  if !sync then .ok []
  else do
    require caller.dispatcher .unavailable
    let d := dispatchSyncSubscribers snap invoke e.name e.version
    require (d.failures = 0) (.dispatchFailed d.failures d.total)
    return d.called

/-- `makeEventEmit`. -/
def emit (snap : Snapshot) (invoke : EventSubscription → Outcome) (caller : Caller) (sync : Bool)
    (input : Envelope) : Except EmitError Emitted := do
  require caller.capEventEmit .capabilityDenied
  let e := input.withDefaultVersion
  checkDeclared snap e
  validatePayload e.payload
  let called ← dispatchInline snap invoke caller sync e
  return ⟨called, ⟨e, sync, false⟩⟩

/-- `enqueueEventDeliveryTx`, as records and workflows call it. -/
def enqueueEventDeliveryTx (e : Envelope) : Except EmitError Emitted := do
  validatePayload e.payload
  return ⟨[], ⟨e, false, true⟩⟩

/-- The ways in which an event is emitted. -/
def emission (snap : Snapshot) (invoke : EventSubscription → Outcome) (caller : Caller) (path : EmissionPath)
    (input : Envelope) : Except EmitError Emitted :=
  match path with
  | .emit sync => emit snap invoke caller sync input
  | .emitTx sync => emitTx snap caller sync input
  | .lifecycle => enqueueEventDeliveryTx input
  | .workflow => enqueueEventDeliveryTx input

/-! ## Fan-out -/

structure SubscriberDeliveryArgs where
  event : Envelope
  moduleName : String
  handlerName : String
  replay : Bool
deriving DecidableEq, Repr

structure SubscriberJob where
  args : SubscriberDeliveryArgs
  tags : List String
  maxAttempts : Option Int
deriving DecidableEq, Repr

def moduleVersionTagMark : String := "module_version-"

/-- `jobqueue.ModuleVersionTag`. -/
def moduleVersionTag (version : String) : String :=
  moduleVersionTagMark ++ String.ofList (Hex.encode version.toUTF8.data.toList)

def subscriberArgs (e : Envelope) (sub : EventSubscription) : SubscriberDeliveryArgs :=
  ⟨e, sub.moduleName, sub.handlerName, false⟩

/-- The job for a subscriber. -/
def subscriberJob (e : Envelope) (sub : EventSubscription) (m : Module.LoadedModule) : SubscriberJob where
  args := subscriberArgs e sub
  tags := [moduleVersionTag m.manifest.version]
  maxAttempts := if sub.maxAttempts > 0 then some sub.maxAttempts else none

/-- River inserts a job unless there is one with the same arguments, in any state. -/
def insertUnique (queue : List SubscriberJob) (job : SubscriberJob) : List SubscriberJob :=
  if queue.any (·.args = job.args) then queue else queue ++ [job]

/-- The loop of `Worker.Work`; a subscriber that is not loaded ends the attempt. -/
def fanOutTo (snap : Snapshot) (args : EventDeliveryArgs) (queue : List SubscriberJob) :
    List EventSubscription → List SubscriberJob
  | [] => queue
  | sub :: subs =>
    if !sub.async && args.syncDispatched then fanOutTo snap args queue subs
    else
      match snap.modules.get? sub.moduleName with
      | none => queue
      | some m => fanOutTo snap args (insertUnique queue (subscriberJob args.event sub m)) subs

/-- An attempt of `Worker.Work` at a delivery job. -/
def fanOut (snap : Snapshot) (args : EventDeliveryArgs) (queue : List SubscriberJob) : List SubscriberJob :=
  fanOutTo snap args queue (snap.subscribers args.event.name args.event.version)

/-! ## Delivery -/

inductive DeliveryError where
  /-- `subscription %s.%s for event %q is no longer a registered async subscriber` -/
  | notAsyncSubscriber (moduleName handlerName eventName : String)
  | notReady (moduleName : String)
  /-- `invalid module version tag %q` -/
  | versionTag (tag : String)
  | compatibility (e : Schema.MigrationError)
  /-- `river.JobCancel`: the module was upgraded across an incompatible data migration -/
  | incompatible (moduleName pinned live : String)
  | noPool (moduleName : String)
  /-- `resolve event tenant %s`: no such tenant, or a deleted one -/
  | tenantNotFound (tenantID : String)
  /-- `river.JobCancel`: the user of the event is no active member of the tenant (`role.ErrNotMember`) -/
  | notMember (userID : String)
deriving DecidableEq, Repr

/-- What follows the mark in a tag, if the tag has it. -/
def cutMark (tag : String) : Option (List Char) :=
  if moduleVersionTagMark.toList.isPrefixOf tag.toList then
    some (tag.toList.drop moduleVersionTagMark.toList.length)
  else none

def decodeVersion (encoded : List Char) : Option String :=
  match Hex.decode encoded with
  | none => none
  | some [] => none
  | some bytes => String.fromUTF8? ⟨bytes.toArray⟩

/-- `jobqueue.ParseModuleVersionTag`: the version of the first tag with the mark. -/
def parseModuleVersionTag : List String → Except DeliveryError String
  | [] => .ok ""
  | tag :: tags =>
    match cutMark tag with
    | none => parseModuleVersionTag tags
    | some encoded =>
      match decodeVersion encoded with
      | none => .error (.versionTag tag)
      | some version => .ok version

/-- The subscription that a job names, as the delivery worker finds it. -/
def findSubscription (subs : List EventSubscription) (args : SubscriberDeliveryArgs) : Option EventSubscription :=
  subs.find? fun sub => sub.moduleName = args.moduleName && sub.handlerName = args.handlerName && sub.async

/-- The tenants and their members when a job runs. -/
structure Directory where
  /-- the slug of a tenant that is not deleted, by its id -/
  tenant : String → Option String
  /-- whether a user has an active row of `tenant_members` in the tenant of a slug -/
  activeMember : String → String → Bool

/-- `ResolveActingUser`: without a user the caller is anonymous. -/
def Directory.resolveActingUser (dir : Directory) (slug userID : String) : Except DeliveryError Unit :=
  if userID = "" then .ok () else if dir.activeMember slug userID then .ok () else .error (.notMember userID)

/-- `invokeSubscription` up to the call of the handler. An instance, the locale and the claim of a transactional
delivery are taken to be had: without one of them the attempt fails and River runs the job again. -/
def invokeSubscription (dir : Directory) (e : Envelope) (sub : EventSubscription) :
    Except DeliveryError EventSubscription :=
  match dir.tenant e.tenantID with
  | none => .error (.tenantNotFound e.tenantID)
  | some slug => do
    dir.resolveActingUser slug e.userID
    return sub

/-- `SubscriberDeliveryWorker.Work` up to the call of the handler: the subscription whose handler it calls. -/
def subscriberWork (S : Schema.Semver) (snap : Snapshot) (dir : Directory) (job : SubscriberJob) :
    Except DeliveryError EventSubscription :=
  match findSubscription (snap.subscribers job.args.event.name job.args.event.version) job.args with
  | none => .error (.notAsyncSubscriber job.args.moduleName job.args.handlerName job.args.event.name)
  | some sub =>
    match snap.modules.get? job.args.moduleName with
    | none => .error (.notReady job.args.moduleName)
    | some m =>
      if m.status ≠ .ready then .error (.notReady job.args.moduleName)
      else
        match parseModuleVersionTag job.tags with
        | .error e => .error e
        | .ok pinned =>
          match Schema.isQueuedWorkCompatible S m.dataMigrations pinned m.manifest.version with
          | .error e => .error (.compatibility e)
          | .ok false => .error (.incompatible job.args.moduleName pinned m.manifest.version)
          | .ok true =>
            if !m.pool then .error (.noPool job.args.moduleName) else invokeSubscription dir job.args.event sub

/-! ## Reaching a subscriber -/

/-- The jobs for a subscriber of an event. -/
def jobsFor (queue : List SubscriberJob) (e : Envelope) (sub : EventSubscription) : List SubscriberJob :=
  queue.filter (·.args = subscriberArgs e sub)

/-- The subscriber was called inline and has no job, or has one job, for which the delivery worker calls its handler. -/
def ReachedOnce (S : Schema.Semver) (snap : Snapshot) (dir : Directory) (em : Emitted) (queue : List SubscriberJob)
    (s : EventSubscription) : Prop :=
  (s ∈ em.inline ∧ jobsFor queue em.job.event s = []) ∨
    (s ∉ em.inline ∧ ∃ job, jobsFor queue em.job.event s = [job] ∧ subscriberWork S snap dir job = .ok s)

/-- The tenant of the event is there, and its user, if it has one, is still an active member. -/
def Directory.Admits (dir : Directory) (e : Envelope) : Prop :=
  ∃ slug, dir.tenant e.tenantID = some slug ∧ (e.userID = "" ∨ dir.activeMember slug e.userID = true)

theorem invokeSubscription_ok {dir : Directory} {e : Envelope} {s : EventSubscription} :
    invokeSubscription dir e s = .ok s ↔ dir.Admits e := by
  unfold invokeSubscription Directory.Admits
  cases dir.tenant e.tenantID with
  | none => simp
  | some slug =>
    simp only [Option.some.injEq, exists_eq_left']
    unfold Directory.resolveActingUser
    split
    · rename_i hanonymous
      exact ⟨fun _ => .inl hanonymous, fun _ => rfl⟩
    split
    · rename_i hmember
      exact ⟨fun _ => .inr hmember, fun _ => rfl⟩
    · rename_i huser hmember
      exact ⟨nofun, fun h => absurd h (by simp [huser, hmember])⟩

section

variable {snap : Snapshot} {invoke : EventSubscription → Outcome} {caller : Caller} {input : Envelope} {em : Emitted}

theorem emit_ok {sync : Bool} (h : emit snap invoke caller sync input = .ok em) : em.job.syncDispatched = sync ∧
      em.inline = if sync then
        ((snap.subscribers em.job.event.name em.job.event.version).filter (!·.async)).filter
          fun sub => snap.canRun sub.moduleName
      else [] := by
  obtain ⟨_, _, h⟩ := bind_eq_ok.mp h
  obtain ⟨_, _, h⟩ := bind_eq_ok.mp h
  obtain ⟨_, _, h⟩ := bind_eq_ok.mp h
  obtain ⟨called, hcalled, h⟩ := bind_eq_ok.mp h
  cases h
  cases sync with
  | false =>
    cases hcalled
    exact ⟨rfl, rfl⟩
  | true =>
    obtain ⟨_, _, hcalled⟩ := bind_eq_ok.mp hcalled
    obtain ⟨_, _, hcalled⟩ := bind_eq_ok.mp hcalled
    cases hcalled
    exact ⟨rfl, rfl⟩

theorem emitTx_ok {sync : Bool} (h : emitTx snap caller sync input = .ok em) :
    em.job.syncDispatched = false ∧ em.inline = [] := by
  obtain ⟨_, _, h⟩ := bind_eq_ok.mp h
  obtain ⟨_, _, h⟩ := bind_eq_ok.mp h
  obtain ⟨_, _, h⟩ := bind_eq_ok.mp h
  obtain ⟨_, _, h⟩ := bind_eq_ok.mp h
  obtain ⟨_, _, h⟩ := bind_eq_ok.mp h
  cases h
  exact ⟨rfl, rfl⟩

theorem enqueueEventDeliveryTx_ok (h : enqueueEventDeliveryTx input = .ok em) :
    em.job.syncDispatched = false ∧ em.inline = [] := by
  obtain ⟨_, _, h⟩ := bind_eq_ok.mp h
  cases h
  exact ⟨rfl, rfl⟩

/-- What an emission that succeeded did inline, and what its job says of that. -/
theorem emission_ok {path : EmissionPath} (h : emission snap invoke caller path input = .ok em) :
    em.job.syncDispatched = decide (path = .emit true) ∧
      em.inline = if path = .emit true then
        ((snap.subscribers em.job.event.name em.job.event.version).filter (!·.async)).filter
          fun sub => snap.canRun sub.moduleName
      else [] := by
  cases path with
  | emit sync => cases sync <;> simpa using emit_ok h
  | emitTx sync => simpa using emitTx_ok h
  | lifecycle => simpa using enqueueEventDeliveryTx_ok h
  | workflow => simpa using enqueueEventDeliveryTx_ok h

end

/-! ### Version tags -/

theorem fromUTF8_toUTF8 (s : String) : String.fromUTF8? ⟨s.toUTF8.data.toList.toArray⟩ = some s := by
  have hvalid : (ByteArray.mk s.toUTF8.data.toList.toArray).IsValidUTF8 := by
    exact s.isValidUTF8
  rw [String.fromUTF8?, dif_pos hvalid]
  apply congrArg some
  apply String.toByteArray_inj.mp
  show ByteArray.mk s.toUTF8.data.toList.toArray = s.toByteArray
  rfl

theorem cutMark_moduleVersionTag (version : String) :
    cutMark (moduleVersionTag version) = some (Hex.encode version.toUTF8.data.toList) := by
  have htag : (moduleVersionTag version).toList =
      moduleVersionTagMark.toList ++ Hex.encode version.toUTF8.data.toList := by
    rw [moduleVersionTag, String.toList_append, String.toList_ofList]
  rw [cutMark, htag, if_pos, drop_left]
  exact isPrefixOf_iff_prefix.mpr (prefix_append _ _)

/-- A tag reads back as the version it was made of. -/
theorem parseModuleVersionTag_tag {version : String} (h : version ≠ "") :
    parseModuleVersionTag [moduleVersionTag version] = .ok version := by
  have hdecode : decodeVersion (Hex.encode version.toUTF8.data.toList) = some version := by
    have hutf8 := fromUTF8_toUTF8 version
    unfold decodeVersion
    rw [Hex.decode_encode]
    cases hbytes : version.toUTF8.data.toList with
    | nil =>
      -- only the empty text has no bytes
      have hempty : String.fromUTF8? ⟨[].toArray⟩ = some "" := fromUTF8_toUTF8 ""
      rw [hbytes, hempty, Option.some.injEq] at hutf8
      exact absurd hutf8.symm h
    | cons b bs =>
      rw [hbytes] at hutf8
      exact hutf8
  simp only [parseModuleVersionTag, cutMark_moduleVersionTag, hdecode]

/-! ### Lookups -/

section

variable {subs : List EventSubscription} (hnodup : (subs.map (·.moduleName)).Nodup)
include hnodup

theorem findSubscription_async (e : Envelope) {s : EventSubscription} (hs : s ∈ subs) (ha : s.async = true) :
    findSubscription subs (subscriberArgs e s) = some s := by
  cases hf : findSubscription subs (subscriberArgs e s) with
  | none =>
    have hnone := find?_eq_none.mp hf s hs
    simp [subscriberArgs, ha] at hnone
  | some t =>
    have ht := find?_some hf
    simp only [subscriberArgs, Bool.and_eq_true] at ht
    rw [inj_on_of_nodup_map hnodup (mem_of_find?_eq_some hf) hs (of_decide_eq_true ht.1.1)]

theorem findSubscription_sync (e : Envelope) {s : EventSubscription} (hs : s ∈ subs) (ha : s.async = false) :
    findSubscription subs (subscriberArgs e s) = none := by
  apply find?_eq_none.mpr
  intro t ht hfound
  simp only [subscriberArgs, Bool.and_eq_true] at hfound
  -- the module has no other subscription to the event
  have hst : t = s := inj_on_of_nodup_map hnodup ht hs (of_decide_eq_true hfound.1.1)
  rw [hst, ha] at hfound
  exact Bool.false_ne_true hfound.2

end

/-! ### The jobs of a subscriber -/

section

variable {snap : Snapshot} {args : EventDeliveryArgs} {s : EventSubscription} {queue : List SubscriberJob}
  {e : Envelope}

theorem jobsFor_insertUnique_of_ne {job : SubscriberJob} (h : job.args ≠ subscriberArgs e s) :
    jobsFor (insertUnique queue job) e s = jobsFor queue e s := by
  unfold insertUnique
  split
  · rfl
  · simp [jobsFor, h]

/-- A subscriber that has a job keeps it and gets no other. -/
theorem jobsFor_insertUnique_of_ne_nil (h : jobsFor queue e s ≠ []) (job : SubscriberJob) :
    jobsFor (insertUnique queue job) e s = jobsFor queue e s := by
  by_cases hargs : job.args = subscriberArgs e s
  · obtain ⟨j, hj⟩ := exists_mem_of_ne_nil _ h
    obtain ⟨hj, hja⟩ := mem_filter.mp hj
    have hany : queue.any (·.args = job.args) = true :=
      List.any_eq_true.mpr ⟨j, hj, by simpa [hargs] using hja⟩
    rw [insertUnique, if_pos hany]
  · exact jobsFor_insertUnique_of_ne hargs

theorem jobsFor_insertUnique_new {m : Module.LoadedModule} (h : jobsFor queue e s = []) :
    jobsFor (insertUnique queue (subscriberJob e s m)) e s = [subscriberJob e s m] := by
  have hany : queue.any (·.args = (subscriberJob e s m).args) = false := by
    rw [Bool.eq_false_iff]
    intro hany
    obtain ⟨j, hj, hja⟩ := List.any_eq_true.mp hany
    exact filter_eq_nil_iff.mp h j hj hja
  rw [insertUnique, if_neg (by simp [hany]), jobsFor, filter_append, ← jobsFor, h]
  simp [subscriberJob]

/-- The subscribers to which an attempt gives a job. -/
def Wanted (args : EventDeliveryArgs) (sub : EventSubscription) : Prop :=
  sub.async = true ∨ args.syncDispatched = false

theorem jobsFor_fanOutTo_of_ne_nil (subs : List EventSubscription) (h : jobsFor queue args.event s ≠ []) :
    jobsFor (fanOutTo snap args queue subs) args.event s = jobsFor queue args.event s := by
  induction subs generalizing queue with
  | nil => rfl
  | cons sub subs ih =>
    unfold fanOutTo
    split
    · exact ih h
    split
    · rfl
    rename_i m _
    have hkeep := jobsFor_insertUnique_of_ne_nil h (subscriberJob args.event sub m)
    rw [ih (by rwa [hkeep]), hkeep]

theorem jobsFor_fanOutTo_of_not_wanted {subs : List EventSubscription}
    (h : ∀ t ∈ subs, t.moduleName = s.moduleName → ¬ Wanted args t) (queue : List SubscriberJob) :
    jobsFor (fanOutTo snap args queue subs) args.event s = jobsFor queue args.event s := by
  induction subs generalizing queue with
  | nil => rfl
  | cons sub subs ih =>
    have ih' := ih fun t ht => h t (mem_cons_of_mem _ ht)
    unfold fanOutTo
    split
    · exact ih' queue
    split
    · rfl
    rename_i hskip _ _ _
    rw [ih', jobsFor_insertUnique_of_ne]
    intro hargs
    have hmod : sub.moduleName = s.moduleName := congrArg SubscriberDeliveryArgs.moduleName hargs
    apply h sub mem_cons_self hmod
    simpa [Wanted, Decidable.or_iff_not_imp_left] using hskip

theorem jobsFor_fanOutTo_wanted {subs : List EventSubscription}
    {m : Module.LoadedModule} (hloaded : ∀ t ∈ subs, ∃ m, snap.modules.get? t.moduleName = some m)
    (hnodup : (subs.map (·.moduleName)).Nodup) (hs : s ∈ subs) (hm : snap.modules.get? s.moduleName = some m)
    (hw : Wanted args s) (h : jobsFor queue args.event s = []) :
    jobsFor (fanOutTo snap args queue subs) args.event s = [subscriberJob args.event s m] := by
  induction subs generalizing queue with
  | nil => exact absurd hs not_mem_nil
  | cons sub subs ih =>
    have hloaded' : ∀ t ∈ subs, ∃ m, snap.modules.get? t.moduleName = some m :=
      fun t ht => hloaded t (mem_cons_of_mem _ ht)
    rw [map_cons, nodup_cons] at hnodup
    rcases mem_cons.mp hs with rfl | hs'
    · -- its job is inserted here, and kept by the rest of the loop
      have hnew := jobsFor_insertUnique_new (m := m) h
      have hgo : ¬ (!s.async && args.syncDispatched) = true := by
        rcases hw with ha | hd
        · simp [ha]
        · simp [hd]
      rw [fanOutTo, if_neg hgo, hm]
      show jobsFor (fanOutTo snap args _ subs) args.event s = _
      rw [jobsFor_fanOutTo_of_ne_nil subs (by rw [hnew]; exact cons_ne_nil _ _), hnew]
    · have hne : sub.moduleName ≠ s.moduleName := fun heq =>
        hnodup.1 (heq ▸ mem_map_of_mem (f := (·.moduleName)) hs')
      unfold fanOutTo
      split
      · exact ih hloaded' hnodup.2 hs' h
      obtain ⟨m', hm'⟩ := hloaded sub mem_cons_self
      rw [hm']
      apply ih hloaded' hnodup.2 hs'
      rw [jobsFor_insertUnique_of_ne, h]
      exact fun hargs => hne (congrArg SubscriberDeliveryArgs.moduleName hargs)

end

/-! ### The delivery of a snapshot -/

section

variable {S : Schema.Semver} {snap : Snapshot} {dir : Directory} {s : EventSubscription}

theorem Snapshot.subscribers_nodup (snap : Snapshot) (eventName : String) (version : Int) :
    ((snap.subscribers eventName version).map (·.moduleName)).Nodup := by
  apply subscribersOf_nodup
  intro x hx hf
  exact Module.accepted_of_validate (snap.valid x.1 x.2 (Table.mem_rows.mp hx) hf).1

theorem Snapshot.canRun_of_ready {m : Module.LoadedModule} (hm : snap.modules.get? s.moduleName = some m)
    (hready : m.status = .ready) : snap.canRun s.moduleName = true := by
  have hpool := (snap.valid _ m hm (by rw [hready]; decide)).2.2
  simp [Snapshot.canRun, hm, hready, hpool]

variable {e : Envelope} {m : Module.LoadedModule} (hs : s ∈ snap.subscribers e.name e.version)
include hs

/-- The job of an asynchronous subscriber is resolved to it; what is left is to resolve the user. -/
theorem subscriberWork_async (hm : snap.modules.get? s.moduleName = some m) (hready : m.status = .ready)
    (ha : s.async = true) : subscriberWork S snap dir (subscriberJob e s m) = invokeSubscription dir e s := by
  obtain ⟨_, hversion, hpool⟩ := snap.valid _ m hm (by rw [hready]; decide)
  have hfind := findSubscription_async (snap.subscribers_nodup e.name e.version) e hs ha
  simp only [subscriberArgs] at hfind
  simp [subscriberWork, subscriberJob, subscriberArgs, hfind, hm, hready, parseModuleVersionTag_tag hversion, hpool]

/-- The job of a synchronous subscriber is refused, whatever its module. -/
theorem subscriberWork_sync (ha : s.async = false) (job : SubscriberJob) (hjob : job.args = subscriberArgs e s) :
    subscriberWork S snap dir job = .error (.notAsyncSubscriber s.moduleName s.handlerName e.name) := by
  have hfind := findSubscription_sync (snap.subscribers_nodup e.name e.version) e hs ha
  unfold subscriberWork
  rw [hjob]
  show (match findSubscription (snap.subscribers e.name e.version) (subscriberArgs e s) with
    | none => _ | some sub => _) = _
  rw [hfind]
  rfl

end

section

variable {snap : Snapshot} {args : EventDeliveryArgs} {s : EventSubscription}

/-- A subscriber that the fan-out passes over gets no job, however often the delivery is attempted. -/
theorem jobsFor_attempts_of_not_wanted (hs : s ∈ snap.subscribers args.event.name args.event.version)
    (hw : ¬ Wanted args s) (n : Nat) (queue : List SubscriberJob) :
    jobsFor ((fanOut snap args)^[n] queue) args.event s = jobsFor queue args.event s := by
  have hnodup := snap.subscribers_nodup args.event.name args.event.version
  induction n generalizing queue with
  | zero => rfl
  | succ n ih =>
    rw [Function.iterate_succ_apply, ih]
    apply jobsFor_fanOutTo_of_not_wanted
    intro t ht hmod
    rwa [inj_on_of_nodup_map hnodup ht hs hmod]

theorem jobsFor_attempts_of_ne_nil {queue : List SubscriberJob} (h : jobsFor queue args.event s ≠ []) (n : Nat) :
    jobsFor ((fanOut snap args)^[n] queue) args.event s = jobsFor queue args.event s := by
  induction n generalizing queue with
  | zero => rfl
  | succ n ih =>
    have hstep : jobsFor (fanOut snap args queue) args.event s = jobsFor queue args.event s :=
      jobsFor_fanOutTo_of_ne_nil _ h
    rw [Function.iterate_succ_apply, ih (by rwa [hstep]), hstep]

/-- The first attempt inserts the job of a subscriber that it does not pass over, and the others add none. -/
theorem jobsFor_attempts_wanted {m : Module.LoadedModule} {queue : List SubscriberJob}
    (hs : s ∈ snap.subscribers args.event.name args.event.version) (hm : snap.modules.get? s.moduleName = some m)
    (hw : Wanted args s) (h : jobsFor queue args.event s = []) (n : Nat) :
    jobsFor ((fanOut snap args)^[n + 1] queue) args.event s = [subscriberJob args.event s m] := by
  have hfirst : jobsFor (fanOut snap args queue) args.event s = [subscriberJob args.event s m] := by
    refine jobsFor_fanOutTo_wanted ?_ (snap.subscribers_nodup _ _) hs hm hw h
    intro t ht
    obtain ⟨m', hm', _⟩ := loaded_of_subscriber ht
    exact ⟨m', hm'⟩
  rw [Function.iterate_succ_apply, jobsFor_attempts_of_ne_nil (by rw [hfirst]; exact cons_ne_nil _ _), hfirst]

end

/-- **Who is reached.** A subscriber of an emitted event whose module is ready is reached one way and once, if and
only if it is asynchronous and the event's user is still a member when the job runs, or it is synchronous and the event
was emitted synchronously. -/
theorem subscriber_reached_iff {S : Schema.Semver} {snap : Snapshot} {dir : Directory}
    {invoke : EventSubscription → Outcome} {caller : Caller} {path : EmissionPath} {input : Envelope} {em : Emitted}
    {s : EventSubscription} {m : Module.LoadedModule} {queue : List SubscriberJob}
    (hem : emission snap invoke caller path input = .ok em)
    (hs : s ∈ snap.subscribers em.job.event.name em.job.event.version)
    (hm : snap.modules.get? s.moduleName = some m) (hready : m.status = .ready)
    (hqueue : jobsFor queue em.job.event s = []) (n : Nat) :
    ReachedOnce S snap dir em ((fanOut snap em.job)^[n + 1] queue) s ↔
      (s.async = true ∧ dir.Admits em.job.event) ∨ (s.async = false ∧ path = .emit true) := by
  obtain ⟨hsync, hinline⟩ := emission_ok hem
  by_cases ha : s.async = true
  · -- a job, resolved to the subscriber
    have hnot : s ∉ em.inline := by
      rw [hinline]
      split <;> simp [ha]
    have hjobs := jobsFor_attempts_wanted hs hm (Or.inl ha) hqueue n
    simp only [ReachedOnce, hnot, hjobs, ha, true_and, false_and, false_or, not_false_eq_true, Bool.true_eq_false,
      or_false, List.cons.injEq, and_true, exists_eq_left']
    rw [subscriberWork_async hs hm hready ha, invokeSubscription_ok]
  · have ha' : s.async = false := by simpa using ha
    by_cases hpath : path = .emit true
    · -- the inline call, and no job
      have hmem : s ∈ em.inline := by
        rw [hinline, if_pos hpath]
        simp [hs, ha', snap.canRun_of_ready hm hready]
      have hw : ¬ Wanted em.job s := by
        simp [Wanted, ha', hsync, hpath]
      simp only [ha', hpath, and_self, or_true, iff_true]
      exact Or.inl ⟨hmem, by rw [jobsFor_attempts_of_not_wanted hs hw, hqueue]⟩
    · -- a job that the delivery worker refuses
      have hnot : s ∉ em.inline := by
        rw [hinline, if_neg hpath]
        exact not_mem_nil
      have hw : Wanted em.job s := Or.inr (by simp [hsync, hpath])
      have hjobs := jobsFor_attempts_wanted hs hm hw hqueue n
      simp only [ha', hpath, Bool.false_eq_true, false_and, and_false, or_self, iff_false]
      rintro (⟨hmem, _⟩ | ⟨_, job, hjob, hwork⟩)
      · exact hnot hmem
      rw [hjobs, List.cons.injEq] at hjob
      rw [← hjob.1, subscriberWork_sync hs ha' _ rfl] at hwork
      cases hwork

def salesModule : Module.LoadedModule where
  manifest := { name := "sales", version := "1.0.0", emits := [⟨"sales.order.shipped", 1⟩] }
  status := .ready

def stockModule (async : Bool) : Module.LoadedModule where
  manifest :=
    { name := "stock", version := "1.0.0", dependsOn := ["sales"]
      subscribes := [⟨"sales.order.shipped", 1, "handle_order_shipped", async, false, none⟩] }
  status := .ready

def shopModules (async : Bool) : Module.Modules where
  rows := [("sales", salesModule), ("stock", stockModule async)]
  nodup := by
    show ["sales", "stock"].Nodup
    decide

/-- A shop: `sales` emits an event that `stock` subscribes to. -/
def shop (async : Bool) : Snapshot where
  modules := shopModules async
  valid name m h _ := by
    have hmem := Table.mem_rows.mpr h
    simp only [shopModules, mem_cons, Prod.mk.injEq, not_mem_nil, or_false] at hmem
    rcases hmem with ⟨rfl, rfl⟩ | ⟨rfl, rfl⟩
    · decide
    · cases async <;> decide

def shipped : Envelope := ⟨"e1", "sales.order.shipped", 1, "sales", "acme", "ann", "", "", 0, 0, []⟩

def stockSubscription (async : Bool) : EventSubscription :=
  ⟨"stock", 1, "handle_order_shipped", async, false, 0⟩

/-- The tenant of the shop, with one member. -/
def acme : Directory where
  tenant id := if id = "acme" then some "acme" else none
  activeMember _ user := user = "ann"

theorem subscriber_reached_iff_async : ReachedOnce .triples (shop true) acme ⟨[], ⟨shipped, false, false⟩⟩
      ((fanOut (shop true) ⟨shipped, false, false⟩)^[1] []) (stockSubscription true) := by
  have hem : emission (shop true) (fun _ => .status 0) ⟨true, false, false⟩ (.emit false) shipped =
      .ok ⟨[], ⟨shipped, false, false⟩⟩ := by decide
  have hs : stockSubscription true ∈ (shop true).subscribers "sales.order.shipped" 1 := by decide
  exact (subscriber_reached_iff hem hs rfl rfl rfl 0).mpr (.inl ⟨rfl, "acme", by decide, .inr (by decide)⟩)

/-- A synchronous subscriber of an event that was not emitted synchronously: it gets a job, which is refused, though the
user of the event is an active member. -/
theorem sync_subscriber_missed :
    ¬ ∀ (S : Schema.Semver) (snap : Snapshot) (dir : Directory) (invoke : EventSubscription → Outcome)
        (caller : Caller) (path : EmissionPath) (input : Envelope) (em : Emitted) (s : EventSubscription)
        (m : Module.LoadedModule) (queue : List SubscriberJob) (n : Nat),
        emission snap invoke caller path input = .ok em →
        s ∈ snap.subscribers em.job.event.name em.job.event.version → snap.modules.get? s.moduleName = some m →
        m.status = .ready → jobsFor queue em.job.event s = [] → dir.Admits em.job.event →
        ReachedOnce S snap dir em ((fanOut snap em.job)^[n + 1] queue) s := by
  intro h
  have hem : emission (shop false) (fun _ => .status 0) ⟨true, false, false⟩ (.emit false) shipped =
      .ok ⟨[], ⟨shipped, false, false⟩⟩ := by decide
  have hs : stockSubscription false ∈ (shop false).subscribers "sales.order.shipped" 1 := by decide
  have hadmits : acme.Admits shipped := ⟨"acme", by decide, .inr (by decide)⟩
  rcases h .triples (shop false) acme _ _ _ _ _ _ _ [] 0 hem hs rfl rfl rfl hadmits with
    ⟨hinline, _⟩ | ⟨_, job, hjob, hwork⟩
  · exact absurd hinline not_mem_nil
  have hargs : job ∈ jobsFor _ shipped (stockSubscription false) := hjob ▸ mem_cons_self
  rw [subscriberWork_sync hs rfl job (of_decide_eq_true (mem_filter.mp hargs).2)] at hwork
  cases hwork

end GoErp.Event
