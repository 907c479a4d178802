import Mathlib.Algebra.Ring.Int.Defs
import Mathlib.Data.List.Basic
import GoErp.Lib.Table
import GoErp.Schema.DataMigration

/-!
# `Module.Manifest` — manifests and loaded modules

The part of a manifest that events and the checks between modules read (`manifest/manifest.go`), and the loaded
module with its status (`module/module.go`).
-/

namespace GoErp.Module

open Lib List

/-- `strings.HasPrefix(name, "system.")`. -/
def isSystem (name : String) : Bool := "system.".toList.isPrefixOf name.toList

/-- The order of sorted names: that of their characters. -/
def nameLe (a b : String) : Bool := Schema.lexLe (a.toList.map (·.toNat)) (b.toList.map (·.toNat))

def defaultEventVersion : Int := 1

/-- An entry of `emits`. -/
structure EventDeclaration where
  name : String
  version : Int
deriving DecidableEq, Repr

/-- A version that is not given is the first. -/
def EventDeclaration.effectiveVersion (e : EventDeclaration) : Int :=
  if e.version ≤ 0 then defaultEventVersion else e.version

structure RetryPolicy where
  maxAttempts : Int
  initialDelayMS : Int
  maxDelayMS : Int
deriving DecidableEq, Repr

/-- An entry of `subscribes`. -/
structure EventSubscription where
  name : String
  version : Int
  handler : String
  async : Bool
  transactional : Bool
  retryPolicy : Option RetryPolicy
deriving DecidableEq, Repr

/-- The exact version the subscription handles, and zero for a system event. -/
def EventSubscription.effectiveVersion (s : EventSubscription) : Int :=
  if isSystem s.name then 0
  else if s.version ≤ 0 then defaultEventVersion
  else s.version

/-- The parts of a manifest that events, dependencies and migrations need. -/
structure Manifest where
  name : String
  version : String
  dependsOn : List String := []
  softDependsOn : List String := []
  conflictsWith : List String := []
  emits : List EventDeclaration := []
  subscribes : List EventSubscription := []
  /-- the names of the declared permissions -/
  permissions : List String := []
  reports : List String := []
  /-- the target `module.report` of each report override -/
  reportOverrides : List String := []
  oauthProvider : Option String := none
  ownedModels : List String := []
deriving DecidableEq, Repr

inductive ModuleStatus where
  | pending
  | compiling
  | syncing
  | warming
  | ready
  | failed
  | draining
  | disabled
  | unloaded
deriving DecidableEq, Repr

structure LoadedModule where
  manifest : Manifest
  status : ModuleStatus
  failureReason : String := ""
  loadOrder : Nat := 0
  /-- the module has a pool of instances -/
  pool : Bool := true
  dataMigrations : List Schema.DataMigration := []
deriving DecidableEq, Repr

/-- A module that is marked as failed. -/
def LoadedModule.fail (m : LoadedModule) (reason : String) : LoadedModule :=
  { m with status := .failed, failureReason := reason }

/-- The modules by name. -/
abbrev Modules := Table String LoadedModule

/-! ## Subscriptions of one manifest -/

inductive SubscriptionError where
  /-- `subscribes: system event %q requires async: true` -/
  | systemSync (name : String)
  /-- `subscribes: transactional subscription to event %q requires async: true` -/
  | transactionalSync (name : String)
  /-- `subscribes: retry delays for event %q must fit a nonnegative time.Duration` -/
  | retryDelays (name : String)
  /-- `subscribes: duplicate subscription to event %q version %d` -/
  | duplicate (name : String) (version : Int)
deriving DecidableEq, Repr

/-- The most milliseconds a `time.Duration` holds. -/
def maxMilliseconds : Int := (2 ^ 63 - 1) / 1000000

/-- The delays fit into a duration of nanoseconds. -/
def RetryPolicy.delaysFit (rp : RetryPolicy) : Bool :=
  !(rp.initialDelayMS > maxMilliseconds || rp.maxDelayMS > maxMilliseconds || rp.maxDelayMS < 0)

/-- The loop of `validateEventSubscriptions`, with the subscriptions seen so far. -/
def checkSubscriptions (seen : List (String × Int)) : List EventSubscription → Except SubscriptionError Unit
  | [] => .ok ()
  | sub :: subs =>
    if isSystem sub.name && !sub.async then .error (.systemSync sub.name)
    else if sub.transactional && !sub.async then .error (.transactionalSync sub.name)
    else if sub.retryPolicy.any fun rp => !rp.delaysFit then .error (.retryDelays sub.name)
    else if (sub.name, sub.effectiveVersion) ∈ seen then .error (.duplicate sub.name sub.effectiveVersion)
    else checkSubscriptions ((sub.name, sub.effectiveVersion) :: seen) subs

/-- `validateEventSubscriptions` -/
def validateEventSubscriptions (m : Manifest) : Except SubscriptionError Unit := checkSubscriptions [] m.subscribes

/-- What an accepted list of subscriptions is like. -/
structure Accepted (subs : List EventSubscription) : Prop where
  /-- an event is subscribed to once -/
  nodup : (subs.map fun s => (s.name, s.effectiveVersion)).Nodup
  async_of_system : ∀ s ∈ subs, isSystem s.name = true → s.async = true

/-- The loop accepts subscriptions to different versions, each of which is in order. -/
theorem accepted_of_checkSubscriptions {seen : List (String × Int)} {subs : List EventSubscription}
    (h : checkSubscriptions seen subs = .ok ()) : Accepted subs ∧ ∀ s ∈ subs, (s.name, s.effectiveVersion) ∉ seen := by
  induction subs generalizing seen with
  | nil => exact ⟨⟨nodup_nil, by simp⟩, by simp⟩
  | cons sub subs ih =>
    unfold checkSubscriptions at h
    split at h
    · cases h
    split at h
    · cases h
    split at h
    · cases h
    split at h
    · cases h
    rename_i hsystem _ _ hseen
    obtain ⟨hacc, hnew⟩ := ih h
    refine ⟨⟨?_, ?_⟩, ?_⟩
    · rw [map_cons, nodup_cons]
      refine ⟨?_, hacc.nodup⟩
      intro hmem
      obtain ⟨s, hs, hkey⟩ := mem_map.mp hmem
      exact hnew s hs (hkey ▸ mem_cons_self)
    · intro s hs hsys
      rcases mem_cons.mp hs with rfl | hs
      · simpa [hsys] using hsystem
      · exact hacc.async_of_system s hs hsys
    intro s hs
    rcases mem_cons.mp hs with rfl | hs
    · exact hseen
    · exact fun h => hnew s hs (mem_cons_of_mem _ h)

theorem accepted_of_validate {m : Manifest} (h : validateEventSubscriptions m = .ok ()) : Accepted m.subscribes :=
  (accepted_of_checkSubscriptions h).1

end GoErp.Module
