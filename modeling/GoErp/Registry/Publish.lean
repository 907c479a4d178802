import GoErp.Lib.Dfs
import GoErp.Loader.ModuleSet

/-!
# `Registry.Publish` — synchronous cycles, found when the decision is made

`publishModule` (`modulereload/shared.go`) asks `ValidateCandidate` whether a candidate may replace the published
modules, and `UpdateWithLockedContext` (`registry/registry.go`) then builds the snapshot. This begins with
`validateSyncSubscriptionCycles` (`registry/sync_cycles.go`), which fails every module on a cycle of synchronous
subscriptions; no check of the candidate looks for one. A publication is therefore safe exactly if the modules
accepted together have no such cycle.
-/

namespace GoErp.Registry

open Lib GoErp.Module Loader Relation List

/-! ## The graph of synchronous subscriptions -/

/-- An edge of a module: it subscribes to an event of the emitter. -/
structure SyncEdge where
  emitter : String
  event : String
deriving DecidableEq, Repr

/-- The modules that have not failed. -/
def liveRows (ms : Modules) : List (String × LoadedModule) := ms.rows.filter fun x => !isFailed x.2

/-- `emittersByEvent`: a module once for each of its declarations of the event. -/
def emittersOf (ms : Modules) (event : String) : List String :=
  (liveRows ms).flatMap fun x => (x.2.manifest.emits.filter (·.name = event)).map fun _ => x.1

/-- The edges of a module: the emitters of the events that it subscribes to synchronously. -/
def buildSyncSubscriptionGraph (ms : Modules) (name : String) : List SyncEdge :=
  match ms.get? name with
  | none => []
  | some m =>
    if isFailed m then []
    else (m.manifest.subscribes.filter (!·.async)).flatMap fun sub =>
      (emittersOf ms sub.name).map fun emitter => ⟨emitter, sub.name⟩

/-- The targets of a module's edges, in the order of the visit. -/
def syncTargets (ms : Modules) (name : String) : List String :=
  ((buildSyncSubscriptionGraph ms name).insertionSort fun a b => nameLe a.emitter b.emitter).map (·.emitter)

/-- The nodes of the graph, in the order of the search. -/
def liveNames (ms : Modules) : List String := ((liveRows ms).map Prod.fst).insertionSort fun a b => nameLe a b

/-- `findSyncSubscriptionCycle` -/
def findSyncSubscriptionCycle (ms : Modules) : Option (List String) :=
  Dfs.findCycle (syncTargets ms) (liveNames ms)

/-- A live module subscribes synchronously to an event of a live module. -/
def SyncSubscribes (ms : Modules) (a b : String) : Prop :=
  ∃ m m' sub e, ms.get? a = some m ∧ m.status ≠ .failed ∧ ms.get? b = some m' ∧ m'.status ≠ .failed ∧
    sub ∈ m.manifest.subscribes ∧ sub.async = false ∧ e ∈ m'.manifest.emits ∧ e.name = sub.name

/-- No module subscribes to itself through a chain of synchronous subscriptions. -/
def SyncAcyclic (ms : Modules) : Prop := ∀ name, ¬ TransGen (SyncSubscribes ms) name name

variable {ms : Modules} {name : String}

theorem mem_liveRows {m : LoadedModule} : (name, m) ∈ liveRows ms ↔ ms.get? name = some m ∧ m.status ≠ .failed := by
  rw [liveRows, mem_filter, Table.mem_rows]
  simp [isFailed]

theorem mem_liveNames : name ∈ liveNames ms ↔ Live ms name := by
  rw [liveNames, (perm_insertionSort _ _).mem_iff, mem_map]
  constructor
  · rintro ⟨x, hx, rfl⟩
    exact ⟨x.2, mem_liveRows.mp hx⟩
  · rintro ⟨m, hm⟩
    exact ⟨(name, m), mem_liveRows.mpr hm, rfl⟩

variable {b : String}

theorem mem_emittersOf {event : String} : b ∈ emittersOf ms event ↔
      ∃ m e, ms.get? b = some m ∧ m.status ≠ .failed ∧ e ∈ m.manifest.emits ∧ e.name = event := by
  rw [emittersOf, mem_flatMap]
  constructor
  · rintro ⟨x, hx, hb⟩
    obtain ⟨e, he, rfl⟩ := mem_map.mp hb
    obtain ⟨he, hname⟩ := mem_filter.mp he
    obtain ⟨hm, hl⟩ := mem_liveRows.mp hx
    exact ⟨x.2, e, hm, hl, he, of_decide_eq_true hname⟩
  rintro ⟨m, e, hm, hl, he, hname⟩
  refine ⟨(b, m), mem_liveRows.mpr ⟨hm, hl⟩, mem_map.mpr ⟨e, ?_, rfl⟩⟩
  exact mem_filter.mpr ⟨he, decide_eq_true hname⟩

variable {a : String}

/-- The graph that is searched is the relation. -/
theorem mem_syncTargets : b ∈ syncTargets ms a ↔ SyncSubscribes ms a b := by
  have hgraph : b ∈ syncTargets ms a ↔ ∃ edge ∈ buildSyncSubscriptionGraph ms a, edge.emitter = b := by
    rw [syncTargets, mem_map]
    constructor
    · rintro ⟨edge, hedge, rfl⟩
      exact ⟨edge, (perm_insertionSort _ _).mem_iff.mp hedge, rfl⟩
    · rintro ⟨edge, hedge, rfl⟩
      exact ⟨edge, (perm_insertionSort _ _).mem_iff.mpr hedge, rfl⟩
  rw [hgraph]
  unfold buildSyncSubscriptionGraph SyncSubscribes
  cases hm : ms.get? a with
  | none => simp
  | some m =>
    by_cases hf : m.status = .failed
    · simp [isFailed, hf]
    simp only [isFailed, hf, decide_false, Bool.false_eq_true, if_false, mem_flatMap, mem_map]
    constructor
    · rintro ⟨edge, ⟨sub, hsub, emitter, hem, rfl⟩, rfl⟩
      obtain ⟨hsub, hasync⟩ := mem_filter.mp hsub
      obtain ⟨m', e, hm', hl', he, hname⟩ := mem_emittersOf.mp hem
      exact ⟨m, m', sub, e, rfl, hf, hm', hl', hsub, by simpa using hasync, he, hname⟩
    rintro ⟨m₁, m', sub, e, hm₁, _, hm', hl', hsub, hasync, he, hname⟩
    cases hm₁
    refine ⟨⟨b, sub.name⟩, ⟨sub, ?_, b, mem_emittersOf.mpr ⟨m', e, hm', hl', he, hname⟩, rfl⟩, rfl⟩
    exact mem_filter.mpr ⟨hsub, by simp [hasync]⟩

theorem live_of_syncSubscribes (h : SyncSubscribes ms a b) : Live ms a ∧ Live ms b := by
  obtain ⟨m, m', _, _, hm, hl, hm', hl', _⟩ := h
  exact ⟨⟨m, hm, hl⟩, ⟨m', hm', hl'⟩⟩

theorem edge_eq_syncSubscribes (ms : Modules) : Dfs.Edge (syncTargets ms) = SyncSubscribes ms := by
  funext a b
  exact propext mem_syncTargets

/-- The search stays among live modules. -/
theorem syncTargets_live : ∀ n ∈ liveNames ms, ∀ e ∈ syncTargets ms n, e ∈ liveNames ms := by
  intro n _ e he
  exact mem_liveNames.mpr (live_of_syncSubscribes (mem_syncTargets.mp he)).2

/-- The search is exact. -/
theorem findSyncSubscriptionCycle_eq_none_iff : findSyncSubscriptionCycle ms = none ↔ SyncAcyclic ms := by
  rw [findSyncSubscriptionCycle, Dfs.findCycle_eq_none_iff syncTargets_live, edge_eq_syncSubscribes]
  constructor
  · intro h name hcycle
    obtain ⟨b, hb, _⟩ := (TransGen.head'_iff).mp hcycle
    exact h name (mem_liveNames.mpr (live_of_syncSubscribes hb).1) hcycle
  · intro h name _
    exact h name

/-- A cycle that is found has a live module on it. -/
theorem exists_live_of_cycle {cycle : List String}
    (h : findSyncSubscriptionCycle ms = some cycle) : ∃ name ∈ cycle, Live ms name := by
  have hfound := Dfs.found_of_findCycle syncTargets_live h
  obtain ⟨name, hname⟩ := exists_mem_of_ne_nil _ hfound.closed.ne_nil
  exact ⟨name, hname, mem_liveNames.mp (hfound.subset name hname)⟩

/-! ## Failing the modules on cycles -/

/-- The text of the failure. -/
def cycleMessage : List String → String
  | [] => ""
  | [name] => "module " ++ quote name ++ " subscribes synchronously to its own emitted event"
  | cycle@(first :: _) => "synchronous subscription cycle detected: " ++ " -> ".intercalate (cycle ++ [first])

/-- Every module of a cycle fails. -/
def failAll (ms : Modules) (reason : String) (names : List String) : Modules :=
  names.foldl (fun ms name => failModule ms name reason) ms

/-- The loop of `validateSyncSubscriptionCycles`; each round fails a module, so the fuel is enough. -/
def failCycles : (fuel : Nat) → Modules → Modules
  | 0, ms => ms
  | fuel + 1, ms =>
    match findSyncSubscriptionCycle ms with
    | none => ms
    | some cycle => failCycles fuel (failAll ms (cycleMessage cycle) cycle)

/-- Each round fails a module, so there are at most as many as modules. -/
def validateSyncSubscriptionCycles (ms : Modules) : Modules := failCycles (ms.rows.length + 1) ms

theorem failAll_onlyFails (ms : Modules) (reason : String) (names : List String) :
    OnlyFails ms (failAll ms reason names) := by
  induction names generalizing ms with
  | nil => exact OnlyFails.refl ms
  | cons name names ih => exact (OnlyFails.failModule ms name reason).trans (ih _)

/-- The modules of the cycle are not live afterwards. -/
theorem not_live_failAll {reason : String} {names : List String} (h : name ∈ names) :
    ¬ Live (failAll ms reason names) name := by
  induction names generalizing ms with
  | nil => exact absurd h not_mem_nil
  | cons n names ih =>
    rcases mem_cons.mp h with rfl | h
    · intro hl
      exact not_live_failModule ms name reason ((failAll_onlyFails _ reason names).live hl)
    · exact ih h

theorem live_failAll {reason : String} {names : List String} (h : name ∉ names) (hl : Live ms name) :
    Live (failAll ms reason names) name := by
  induction names generalizing ms with
  | nil => exact hl
  | cons n names ih =>
    obtain ⟨hne, h⟩ := not_or.mp (mt mem_cons.mpr h)
    refine ih h ?_
    obtain ⟨m, hm, hl⟩ := hl
    exact ⟨m, by simp [failModule, Table.get?_update, hm, hne], hl⟩

/-- The loop does nothing but fail modules. -/
theorem failCycles_onlyFails (fuel : Nat) (ms : Modules) : OnlyFails ms (failCycles fuel ms) := by
  induction fuel generalizing ms with
  | zero => exact OnlyFails.refl ms
  | succ fuel ih =>
    unfold failCycles
    split
    · exact OnlyFails.refl ms
    · exact (failAll_onlyFails _ _ _).trans (ih _)

/-- The loop ends with an acyclic graph. -/
theorem failCycles_acyclic {fuel : Nat} (hfuel : ms.rows.length < fuel + failedCount ms) :
    SyncAcyclic (failCycles fuel ms) := by
  induction fuel generalizing ms with
  | zero =>
    have hle := failedCount_le_length ms
    omega
  | succ fuel ih =>
    unfold failCycles
    split
    · rename_i hnone
      exact findSyncSubscriptionCycle_eq_none_iff.mp hnone
    rename_i cycle hcycle
    obtain ⟨name, hname, hl⟩ := exists_live_of_cycle hcycle
    have honly := failAll_onlyFails ms (cycleMessage cycle) cycle
    have hlt := honly.failedCount_lt hl (not_live_failAll hname)
    have hlen := honly.length_rows
    exact ih (by omega)

/-- What is left live has no cycle. -/
theorem validateSyncSubscriptionCycles_acyclic (ms : Modules) :
    SyncAcyclic (validateSyncSubscriptionCycles ms) := failCycles_acyclic (by omega)

/-- Failing modules adds no edge. -/
theorem syncSubscribes_before {ms' : Modules} (h : OnlyFails ms ms') (hab : SyncSubscribes ms' a b) :
    SyncSubscribes ms a b := by
  obtain ⟨m, m', sub, e, hm, hl, hm', hl', hrest⟩ := hab
  obtain ⟨n, hn, hfails⟩ := h.get? hm
  obtain ⟨n', hn', hfails'⟩ := h.get? hm'
  obtain rfl := hfails.eq_of_live hl
  obtain rfl := hfails'.eq_of_live hl'
  exact ⟨_, _, sub, e, hn, hl, hn', hl', hrest⟩

/-- Only modules on a cycle are failed. -/
theorem on_cycle_of_lost {fuel : Nat} (hl : Live ms name) (hlost : ¬ Live (failCycles fuel ms) name) :
    TransGen (SyncSubscribes ms) name name := by
  induction fuel generalizing ms with
  | zero => exact absurd hl hlost
  | succ fuel ih =>
    unfold failCycles at hlost
    split at hlost
    · exact absurd hl hlost
    rename_i cycle hcycle
    by_cases hmem : name ∈ cycle
    · have hfound := Dfs.found_of_findCycle syncTargets_live hcycle
      exact edge_eq_syncSubscribes ms ▸ hfound.closed.transGen hmem
    -- a cycle of the smaller graph is one of the graph
    have hcyclic := ih (live_failAll hmem hl) hlost
    exact TransGen.mono (fun _ _ => syncSubscribes_before (failAll_onlyFails ms _ cycle)) _ _ hcyclic

/-- **What the pass does.** The loop ends, no cycle is left, and every module it failed was on one. -/
theorem validateSyncSubscriptionCycles_removes_cycles (ms : Modules) :
    findSyncSubscriptionCycle (validateSyncSubscriptionCycles ms) = none ∧
      SyncAcyclic (validateSyncSubscriptionCycles ms) ∧ OnlyFails ms (validateSyncSubscriptionCycles ms) ∧
      ∀ name, Live ms name → ¬ Live (validateSyncSubscriptionCycles ms) name →
        TransGen (SyncSubscribes ms) name name := by
  have hacyclic := validateSyncSubscriptionCycles_acyclic ms
  refine ⟨findSyncSubscriptionCycle_eq_none_iff.mpr hacyclic, hacyclic, failCycles_onlyFails _ ms, ?_⟩
  exact fun name hl hlost => on_cycle_of_lost hl hlost

theorem validateSyncSubscriptionCycles_of_acyclic (h : SyncAcyclic ms) : validateSyncSubscriptionCycles ms = ms := by
  rw [validateSyncSubscriptionCycles, failCycles, findSyncSubscriptionCycle_eq_none_iff.mpr h]

/-- A cycle costs a live module. -/
theorem exists_lost_of_not_acyclic (h : ¬ SyncAcyclic ms) :
    ∃ name, Live ms name ∧ ¬ Live (validateSyncSubscriptionCycles ms) name := by
  cases hc : findSyncSubscriptionCycle ms with
  | none => exact absurd (findSyncSubscriptionCycle_eq_none_iff.mp hc) h
  | some cycle =>
    obtain ⟨name, hname, hl⟩ := exists_live_of_cycle hc
    refine ⟨name, hl, ?_⟩
    rw [validateSyncSubscriptionCycles, failCycles, hc]
    intro hlater
    exact not_live_failAll hname ((failCycles_onlyFails _ _).live hlater)

/-! ## Publication -/

/-- The parts of a snapshot whose construction may fail. -/
structure Builders where
  resolve : Modules → Except String Unit
  buildRouteTable : Modules → Except String Unit
  buildJobRegistry : Modules → Except String Unit
  applyTranslations : Modules → Except String Unit

inductive PublishError where
  | candidate (e : CandidateError)
  | resolve (text : String)
  | routeTable (text : String)
  | jobRegistry (text : String)
  | translations (text : String)
deriving DecidableEq, Repr

/-- `UpdateWithLockedContext` after the mutation: the modules of the new snapshot. -/
def publishMerged (B : Builders) (merged : Modules) : Except PublishError Modules := do
  let modules := validateSyncSubscriptionCycles merged
  (B.resolve modules).mapError .resolve
  (B.buildRouteTable modules).mapError .routeTable
  (B.buildJobRegistry modules).mapError .jobRegistry
  (B.applyTranslations modules).mapError .translations
  return modules

/-- A replacement keeps the place of the module it replaces. -/
def withLoadOrder (mod : LoadedModule) (current : Modules) : LoadedModule :=
  { mod with
    loadOrder :=
      match current.get? mod.manifest.name with
      | some old => old.loadOrder
      | none => current.rows.length }

/-- `PublishModule`: the candidate is checked against the current set, and the snapshot is built. -/
def publishModule (V : Validators) (B : Builders) (mod : LoadedModule) (current : Modules) :
    Except PublishError Modules :=
  match validateCandidate V (withLoadOrder mod current) current with
  | .error e => .error (.candidate e)
  | .ok merged => publishMerged B merged

/-- The candidate is live, what was live still is, and the hard dependencies of live modules are live. -/
structure PublishSafe (mod : LoadedModule) (current published : Modules) : Prop where
  candidate_live : Live published mod.manifest.name
  live_of_live : ∀ name, Live current name → Live published name
  dependenciesLive : DependenciesLive published

/-- **When publishing is safe.** A publication that succeeds is safe if and only if the modules that the candidate
was accepted into have no cycle of synchronous subscriptions. -/
theorem publish_safe_iff {V : Validators} {B : Builders} {mod : LoadedModule} {current merged published : Modules}
    (hmerged : validateCandidate V (withLoadOrder mod current) current = .ok merged)
    (hpublish : publishModule V B mod current = .ok published) :
    PublishSafe mod current published ↔ SyncAcyclic merged := by
  have hinto := acceptedInto_of_validateCandidate hmerged
  have hpublished : published = validateSyncSubscriptionCycles merged := by
    simp only [publishModule, hmerged] at hpublish
    obtain ⟨_, _, hpublish⟩ := bind_eq_ok.mp hpublish
    obtain ⟨_, _, hpublish⟩ := bind_eq_ok.mp hpublish
    obtain ⟨_, _, hpublish⟩ := bind_eq_ok.mp hpublish
    obtain ⟨_, _, hpublish⟩ := bind_eq_ok.mp hpublish
    cases hpublish
    rfl
  constructor
  · intro hsafe
    by_contra hcyclic
    obtain ⟨name, hl, hlost⟩ := exists_lost_of_not_acyclic hcyclic
    rw [← hpublished] at hlost
    rcases hinto.live_only name hl with rfl | hcurrent
    · exact hlost hsafe.candidate_live
    · exact hlost (hsafe.live_of_live name hcurrent)
  · intro hacyclic
    rw [hpublished, validateSyncSubscriptionCycles_of_acyclic hacyclic]
    exact ⟨hinto.candidate_live, hinto.live_of_live, hinto.dependenciesLive⟩

/-- Checks that fail nothing. -/
def noPass : Pass := ⟨id, OnlyFails.refl⟩

def noValidators : Validators := ⟨Unit, (), fun _ _ _ => .ok (), noPass, noPass, noPass, noPass, noPass⟩

def noBuilders : Builders := ⟨fun _ => .ok (), fun _ => .ok (), fun _ => .ok (), fun _ => .ok ()⟩

/-- A stock module with the given subscriptions. -/
def stock (subscribes : List EventSubscription) : LoadedModule where
  manifest := { name := "stock", version := "1.1.0", emits := [⟨"stock.item.moved", 1⟩], subscribes := subscribes }
  status := .ready

/-- A module that depends on stock and subscribes to its event synchronously. -/
def sales : LoadedModule where
  manifest :=
    { name := "sales", version := "1.0.0", dependsOn := ["stock"], emits := [⟨"sales.order.shipped", 1⟩]
      subscribes := [⟨"stock.item.moved", 1, "reserve", false, false, none⟩] }
  status := .ready
  loadOrder := 1

def published : Modules := ⟨[("stock", stock []), ("sales", sales)], by decide⟩

/-- The new version of `stock`, which listens to `sales`. -/
def stockListening (async : Bool) : LoadedModule :=
  stock [⟨"sales.order.shipped", 1, "decrease", async, false, none⟩]

theorem publish_safe_iff_async :
    ∃ new, publishModule noValidators noBuilders (stockListening true) published = .ok new ∧
      PublishSafe (stockListening true) published new := by
  have hfind : ((validateCandidate noValidators (withLoadOrder (stockListening true) published)
      published).toOption.map findSyncSubscriptionCycle) = some none := by decide
  cases hmerged : validateCandidate noValidators (withLoadOrder (stockListening true) published) published with
  | error e =>
    rw [hmerged] at hfind
    cases hfind
  | ok merged =>
    rw [hmerged] at hfind
    have hpublish : publishModule noValidators noBuilders (stockListening true) published =
        .ok (validateSyncSubscriptionCycles merged) := by
      simp only [publishModule, hmerged]
      rfl
    refine ⟨_, hpublish, (publish_safe_iff hmerged hpublish).mpr ?_⟩
    exact findSyncSubscriptionCycle_eq_none_iff.mp (Option.some.inj hfind)

/-- A new version that closes a cycle is accepted, and then fails with the live module on the other side. -/
theorem publish_fails_live_module :
    ¬ ∀ (V : Validators) (B : Builders) (mod : LoadedModule) (current merged new : Modules),
        validateCandidate V (withLoadOrder mod current) current = .ok merged →
        publishModule V B mod current = .ok new → PublishSafe mod current new := by
  intro h
  have hlost : (publishModule noValidators noBuilders (stockListening false) published).toOption.map
      (live · "sales") = some false := by decide
  cases hmerged : validateCandidate noValidators (withLoadOrder (stockListening false) published) published with
  | error e =>
    simp [publishModule, hmerged, Except.toOption] at hlost
  | ok merged =>
    have hpublish : publishModule noValidators noBuilders (stockListening false) published =
        .ok (validateSyncSubscriptionCycles merged) := by
      simp only [publishModule, hmerged]
      rfl
    rw [hpublish] at hlost
    have hsafe := h _ _ _ _ merged _ hmerged hpublish
    have hsales := hsafe.live_of_live "sales" ⟨sales, by decide, by decide⟩
    have hdead : live (validateSyncSubscriptionCycles merged) "sales" = false := Option.some.inj hlost
    rw [← live_iff, hdead] at hsales
    cases hsales

end GoErp.Registry
