import GoErp.Module.Manifest

/-!
# `Event.Registry` — who subscribes to an event

`buildEventRegistry` (`registry/registry.go`) registers the events of every module that has not failed, and
`Subscribers` (`event/event.go`) selects the subscriptions to an event version. A module subscribes to an event
version at most once, so a subscriber is determined by its module (`subscribers_nodup`).
-/

namespace GoErp.Event

open Lib List

/-- A registered subscription. -/
structure EventSubscription where
  moduleName : String
  /-- zero for system events -/
  version : Int
  handlerName : String
  async : Bool
  transactional : Bool
  maxAttempts : Int
deriving DecidableEq, Repr

structure EventRegistry where
  subscribers : String → List EventSubscription
  moduleEmits : String → String → Int → Bool

def EventRegistry.new : EventRegistry := ⟨fun _ => [], fun _ _ _ => false⟩

/-- The entry that a module registers for a subscription of its manifest. -/
def registered (moduleName : String) (sub : Module.EventSubscription) : EventSubscription where
  moduleName := moduleName
  version := sub.effectiveVersion
  handlerName := sub.handler
  async := sub.async
  transactional := sub.transactional
  maxAttempts := (sub.retryPolicy.map (·.maxAttempts)).getD 0

def EventRegistry.register (r : EventRegistry) (moduleName : String) (m : Module.Manifest) : EventRegistry where
  subscribers name := r.subscribers name ++ (m.subscribes.filter (·.name = name)).map (registered moduleName)
  moduleEmits mod name version :=
    r.moduleEmits mod name version ||
      (mod = moduleName && m.emits.any fun e => e.name = name && e.effectiveVersion = version)

/-- Failed modules neither emit nor subscribe. -/
def registerAll (r : EventRegistry) : List (String × Module.LoadedModule) → EventRegistry
  | [] => r
  | (name, m) :: rest =>
    if m.status = .failed then registerAll r rest else registerAll (r.register name m.manifest) rest

def buildEventRegistry (modules : Module.Modules) : EventRegistry := registerAll .new modules.rows

/-- The subscriptions to an event version; a system event has no versions. -/
def EventRegistry.subscribersOf (r : EventRegistry) (eventName : String) (version : Int) : List EventSubscription :=
  (r.subscribers eventName).filter fun sub => Module.isSystem eventName || sub.version = version

/-! ## The subscribers of a snapshot -/

/-- What a module contributes to the subscribers of an event version. -/
def contribution (eventName : String) (version : Int) (x : String × Module.LoadedModule) : List EventSubscription :=
  if x.2.status = .failed then []
  else ((x.2.manifest.subscribes.filter (·.name = eventName)).map (registered x.1)).filter fun sub =>
    Module.isSystem eventName || sub.version = version

theorem registerAll_subscribersOf (r : EventRegistry) (rows : List (String × Module.LoadedModule))
    (eventName : String) (version : Int) : (registerAll r rows).subscribersOf eventName version =
      r.subscribersOf eventName version ++ rows.flatMap (contribution eventName version) := by
  induction rows generalizing r with
  | nil => simp [registerAll]
  | cons x rows ih =>
    obtain ⟨name, m⟩ := x
    by_cases hf : m.status = .failed
    · simp [registerAll, hf, ih, contribution]
    have hregister : (r.register name m.manifest).subscribersOf eventName version =
        r.subscribersOf eventName version ++ contribution eventName version (name, m) := by
      simp [contribution, hf, EventRegistry.subscribersOf, EventRegistry.register]
    rw [registerAll, if_neg hf, ih, hregister, append_assoc, flatMap_cons]

theorem subscribersOf_eq (modules : Module.Modules) (eventName : String) (version : Int) :
    (buildEventRegistry modules).subscribersOf eventName version =
      modules.rows.flatMap (contribution eventName version) := by
  rw [buildEventRegistry, registerAll_subscribersOf]
  rfl

variable {version : Int} {eventName : String} {x : String × Module.LoadedModule}

theorem moduleName_of_mem_contribution {s : EventSubscription} (h : s ∈ contribution eventName version x) :
    s.moduleName = x.1 := by
  unfold contribution at h
  split at h
  · exact absurd h not_mem_nil
  · obtain ⟨sub, _, rfl⟩ := mem_map.mp (mem_filter.mp h).1
    rfl

/-- The subscriptions of a manifest to an event version have one key. -/
theorem key_of_contributed {sub : Module.EventSubscription} (hname : sub.name = eventName)
    (hversion : (Module.isSystem eventName || decide (sub.effectiveVersion = version)) = true) :
    (sub.name, sub.effectiveVersion) = (eventName, if Module.isSystem eventName then 0 else version) := by
  subst hname
  by_cases hs : Module.isSystem sub.name = true
  · simp [Module.EventSubscription.effectiveVersion, hs]
  · simpa [hs] using hversion

/-- An accepted module contributes at most one subscription. -/
theorem contribution_nodup (hacc : x.2.status ≠ .failed → Module.Accepted x.2.manifest.subscribes) :
    ((contribution eventName version x).map (·.moduleName)).Nodup := by
  unfold contribution
  split
  · exact nodup_nil
  rename_i hf
  rw [filter_map, List.map_map, filter_filter]
  -- distinct keys, and one key for all that remain
  apply List.Nodup.map_on
  · intro a ha b hb _
    obtain ⟨ha, hpa⟩ := mem_filter.mp ha
    obtain ⟨hb, hpb⟩ := mem_filter.mp hb
    obtain ⟨hva, hna⟩ := Bool.and_eq_true_iff.mp hpa
    obtain ⟨hvb, hnb⟩ := Bool.and_eq_true_iff.mp hpb
    apply inj_on_of_nodup_map (hacc hf).nodup ha hb
    rw [key_of_contributed (of_decide_eq_true hna) hva, key_of_contributed (of_decide_eq_true hnb) hvb]
  · exact (List.Nodup.of_map _ (hacc hf).nodup).filter _

/-- Among accepted modules an event version has one subscriber a module. -/
theorem subscribersOf_nodup {modules : Module.Modules} (eventName : String) (version : Int)
    (hacc : ∀ x ∈ modules.rows, x.2.status ≠ .failed → Module.Accepted x.2.manifest.subscribes) :
    (((buildEventRegistry modules).subscribersOf eventName version).map (·.moduleName)).Nodup := by
  rw [subscribersOf_eq, map_flatMap, nodup_flatMap]
  refine ⟨fun x hx => contribution_nodup (hacc x hx), ?_⟩
  refine (pairwise_map.mp modules.nodup).imp ?_
  intro x y hxy a hx hy
  obtain ⟨s, hs, rfl⟩ := mem_map.mp hx
  obtain ⟨t, ht, hst⟩ := mem_map.mp hy
  rw [moduleName_of_mem_contribution hs, moduleName_of_mem_contribution ht] at hst
  exact hxy hst.symm

/-- A subscriber's module is loaded. -/
theorem loaded_of_subscriber {modules : Module.Modules}
    {s : EventSubscription} (hs : s ∈ (buildEventRegistry modules).subscribersOf eventName version) :
    ∃ m, modules.get? s.moduleName = some m ∧ m.status ≠ .failed := by
  rw [subscribersOf_eq] at hs
  obtain ⟨x, hx, hs⟩ := mem_flatMap.mp hs
  refine ⟨x.2, ?_, ?_⟩
  · rw [moduleName_of_mem_contribution hs]
    exact Table.mem_rows.mp hx
  · intro hf
    simp [contribution, hf] at hs

end GoErp.Event
