import GoErp.Module.Manifest

/-!
# `Loader.ModuleSet` — the checks between modules, and a candidate among them

`ValidateModuleSet` (`loader/validation.go`) repeats its checks until no further module fails, and `ValidateCandidate`
runs them on copies of the published modules with the candidate in its place. The checks of declarations and of event
subscriptions are modelled here; the others are parameters (`Validators`), which may fail modules and do nothing else
to them (`OnlyFails`).

A pass that fails no module has found every hard dependency of a live module live (`dependenciesLive_of_pass`).
-/

namespace GoErp.Loader

open Lib GoErp.Module List

/-! ## Modules that only fail -/

/-- The module is loaded and has not failed. -/
def Live (ms : Modules) (name : String) : Prop := ∃ m, ms.get? name = some m ∧ m.status ≠ .failed

/-- The module is as it was, or has failed. -/
def Fails (m m' : LoadedModule) : Prop := m' = m ∨ ∃ reason, m' = m.fail reason

/-- Nothing but failures lies between two module sets. -/
def OnlyFails (ms ms' : Modules) : Prop :=
  ∃ f : String → LoadedModule → LoadedModule, (∀ k m, Fails m (f k m)) ∧ ms' = ms.update f

/-- A module is marked as failed. -/
def failModule (ms : Modules) (name reason : String) : Modules :=
  ms.update fun k m => if k = name then m.fail reason else m

def isFailed (m : LoadedModule) : Bool := m.status = .failed

/-- The number of failed modules. -/
def failedCount (ms : Modules) : Nat := ms.rows.countP fun x => isFailed x.2

variable {m m' : LoadedModule}

theorem Fails.manifest (h : Fails m m') : m'.manifest = m.manifest := by
  rcases h with rfl | ⟨reason, rfl⟩ <;> rfl

theorem Fails.failed (h : Fails m m') (hf : m.status = .failed) : m'.status = .failed := by
  rcases h with rfl | ⟨reason, rfl⟩
  · exact hf
  · rfl

/-- A module that has not failed is as it was. -/
theorem Fails.eq_of_live (h : Fails m m') (hl : m'.status ≠ .failed) : m' = m := by
  rcases h with rfl | ⟨reason, rfl⟩
  · rfl
  · exact absurd rfl hl

theorem Fails.trans {m₁ m₂ m₃ : LoadedModule} (h : Fails m₁ m₂) (h' : Fails m₂ m₃) : Fails m₁ m₃ := by
  rcases h' with rfl | ⟨reason, rfl⟩
  · exact h
  · refine Or.inr ⟨reason, ?_⟩
    rcases h with rfl | ⟨reason', rfl⟩ <;> rfl

theorem OnlyFails.refl (ms : Modules) : OnlyFails ms ms := by
  refine ⟨fun _ m => m, fun _ _ => Or.inl rfl, ?_⟩
  simp [Table.update]

theorem OnlyFails.trans {ms₁ ms₂ ms₃ : Modules} (h : OnlyFails ms₁ ms₂) (h' : OnlyFails ms₂ ms₃) :
    OnlyFails ms₁ ms₃ := by
  obtain ⟨f, hf, rfl⟩ := h
  obtain ⟨g, hg, rfl⟩ := h'
  refine ⟨fun k m => g k (f k m), fun k m => (hf k m).trans (hg k (f k m)), ?_⟩
  simp [Table.update]

theorem OnlyFails.failModule (ms : Modules) (name reason : String) : OnlyFails ms (failModule ms name reason) := by
  refine ⟨_, ?_, rfl⟩
  intro k m
  by_cases hk : k = name
  · exact Or.inr ⟨reason, by simp [hk]⟩
  · exact Or.inl (by simp [hk])

section

variable {ms ms' : Modules} (h : OnlyFails ms ms')
include h

variable {name : String}

/-- A module of the later set, and the one it was. -/
theorem OnlyFails.get? {m' : LoadedModule} (hm' : ms'.get? name = some m') :
    ∃ m, ms.get? name = some m ∧ Fails m m' := by
  obtain ⟨f, hf, rfl⟩ := h
  rw [Table.get?_update] at hm'
  obtain ⟨m, hm, rfl⟩ := Option.map_eq_some_iff.mp hm'
  exact ⟨m, hm, hf name m⟩

/-- A module of the earlier set, and what it has become. -/
theorem OnlyFails.get?_later {m : LoadedModule} (hm : ms.get? name = some m) :
    ∃ m', ms'.get? name = some m' ∧ Fails m m' := by
  obtain ⟨f, hf, rfl⟩ := h
  refine ⟨f name m, ?_, hf name m⟩
  rw [Table.get?_update, hm]
  rfl

/-- What is live was live. -/
theorem OnlyFails.live (hl : Live ms' name) : Live ms name := by
  obtain ⟨m', hm', hl⟩ := hl
  obtain ⟨m, hm, hfails⟩ := h.get? hm'
  exact ⟨m, hm, hfails.eq_of_live hl ▸ hl⟩

theorem OnlyFails.length_rows : ms'.rows.length = ms.rows.length := by
  obtain ⟨f, _, rfl⟩ := h
  simp [Table.update]

/-- No failure is taken back. -/
theorem OnlyFails.failedCount_le : failedCount ms ≤ failedCount ms' := by
  obtain ⟨f, hf, rfl⟩ := h
  simp only [failedCount, Table.update, countP_map]
  apply countP_mono_left
  intro x _ hx
  simp only [isFailed, decide_eq_true_eq] at hx
  simp [isFailed, (hf x.1 x.2).failed hx]

end

/-- A count that does not grow counts the same elements. -/
theorem of_countP_eq {α : Type} {p q : α → Bool} {l : List α} (hpq : ∀ x ∈ l, p x = true → q x = true)
    (h : l.countP q = l.countP p) {x : α} (hx : x ∈ l) (hq : q x = true) : p x = true := by
  induction l with
  | nil => exact absurd hx not_mem_nil
  | cons a l ih =>
    have hle : l.countP p ≤ l.countP q :=
      countP_mono_left fun y hy => hpq y (mem_cons_of_mem _ hy)
    have ih' := ih fun y hy => hpq y (mem_cons_of_mem _ hy)
    rw [countP_cons, countP_cons] at h
    by_cases hpa : p a = true
    · have hqa := hpq a mem_cons_self hpa
      simp only [hpa, hqa, if_true] at h
      rcases mem_cons.mp hx with rfl | hx
      · exact hpa
      · exact ih' (by omega) hx
    by_cases hqa : q a = true
    · simp only [hpa, hqa, if_true, if_false, Bool.false_eq_true] at h
      omega
    simp only [hpa, hqa, if_false, Bool.false_eq_true] at h
    rcases mem_cons.mp hx with rfl | hx
    · exact absurd hq hqa
    · exact ih' (by omega) hx

variable {name : String} {ms : Modules}

/-- If no module has failed in between, the live modules are the same. -/
theorem OnlyFails.live_of_failedCount_eq {ms' : Modules} (h : OnlyFails ms ms')
    (hcount : failedCount ms' = failedCount ms) (hl : Live ms name) : Live ms' name := by
  obtain ⟨m, hm, hl⟩ := hl
  obtain ⟨f, hf, rfl⟩ := h
  refine ⟨f name m, by rw [Table.get?_update, hm]; rfl, ?_⟩
  intro hfailed
  apply hl
  simp only [failedCount, Table.update, countP_map] at hcount
  have hp : isFailed m = true := by
    refine of_countP_eq ?_ hcount (Table.mem_rows.mpr hm) (by simpa [isFailed] using hfailed)
    intro x _ hx
    simp only [isFailed, decide_eq_true_eq] at hx
    simp [isFailed, (hf x.1 x.2).failed hx]
  simpa [isFailed] using hp

/-- A module that was live and is not any more is a failure more. -/
theorem OnlyFails.failedCount_lt {ms' : Modules} (h : OnlyFails ms ms') (hl : Live ms name) (hn : ¬ Live ms' name) :
    failedCount ms < failedCount ms' := by
  apply Nat.lt_of_le_of_ne h.failedCount_le
  intro heq
  exact hn (h.live_of_failedCount_eq heq.symm hl)

theorem not_live_failModule (ms : Modules) (name reason : String) : ¬ Live (failModule ms name reason) name := by
  rintro ⟨m, hm, hl⟩
  simp only [failModule, Table.get?_update, if_true, Option.map_eq_some_iff] at hm
  obtain ⟨m₀, _, rfl⟩ := hm
  exact hl rfl

/-! ## Declarations -/

inductive DeclarationError where
  | dependsOn (dependency : String)
  | conflictsWith (name other : String)
  | ownedModels (model owner : String)
  | oauthProvider (name owner : String)
  | permission (name owner : String)
  | reportOverrides (target : String)
  | routes (text : String)
deriving DecidableEq, Repr

def quote (s : String) : String := "\"" ++ s ++ "\""

/-- The text of a failure. -/
def DeclarationError.message : DeclarationError → String
  | .dependsOn d => "depends_on: module " ++ quote d ++ " is not loaded"
  | .conflictsWith n o => "conflicts_with: module " ++ quote n ++ " conflicts with loaded module " ++ quote o
  | .ownedModels md o => "schema.owned_models: model " ++ quote md ++ " is already owned by module " ++ quote o
  | .oauthProvider n o => "oauth_provider.name: " ++ quote n ++ " is already declared by module " ++ quote o
  | .permission n o => "permission " ++ quote n ++ " already declared by module " ++ quote o
  | .reportOverrides t => "report_overrides: target " ++ quote t ++ " does not name a declared report"
  | .routes text => text

/-- Fails with the first error of a list of checks. -/
def firstError {α : Type} (check : α → Option DeclarationError) : List α → Except DeclarationError Unit
  | [] => .ok ()
  | a :: as =>
    match check a with
    | some e => .error e
    | none => firstError check as

/-- Some check fails exactly if the list does. -/
theorem firstError_eq_ok {α : Type} {check : α → Option DeclarationError} {l : List α} :
    firstError check l = .ok () ↔ ∀ a ∈ l, check a = none := by
  induction l with
  | nil => simp [firstError]
  | cons a l ih =>
    cases hc : check a with
    | none => simp [firstError, hc, ih]
    | some e => simp [firstError, hc]

/-- The names claimed so far and the module that claims each; the last claim counts. -/
def ownerOf (claims : List (String × String)) (name : String) : Option String :=
  (claims.find? (·.1 = name)).map (·.2)

def live (ms : Modules) (name : String) : Bool := (ms.get? name).any fun m => m.status ≠ .failed

theorem live_iff : live ms name = true ↔ Live ms name := by
  unfold live Live
  cases ms.get? name <;> simp

/-- `strings.Cut(s, ".")`; `none` if there is no dot. -/
def cutDot : List Char → Option (List Char × List Char)
  | [] => none
  | c :: cs => if c = '.' then some ([], cs) else (cutDot cs).map fun (a, b) => (c :: a, b)

/-- The checks between modules that are parameters here. -/
structure Pass where
  run : Modules → Modules
  onlyFails : ∀ ms, OnlyFails ms (run ms)

structure Validators where
  RouteTable : Type
  newTable : RouteTable
  /-- `route.RegisterRoutes` -/
  registerRoutes : RouteTable → String → LoadedModule → Except String RouteTable
  validateModelExtensions : Pass
  validateUsesConfig : Pass
  validateUsesPermissions : Pass
  validateViewExtensions : Pass
  validateModelReferences : Pass

variable (V : Validators)

/-- What the loop of `validateModuleDeclarations` carries. -/
structure DeclState where
  modules : Modules
  incumbents : List String
  models : List (String × String)
  providers : List (String × String)
  permissions : List (String × String)
  table : V.RouteTable

variable {V}

/-- A report of a module that has not failed. -/
def namesReport (ms : Modules) (target : String) : Bool :=
  match cutDot target.toList with
  | none => false
  | some (owner, report) =>
    (ms.get? (String.ofList owner)).any fun m =>
      m.status ≠ .failed && m.manifest.reports.any (·.toList = report)

/-- `checkModuleDeclarations`: the checks in order, up to the first that fails. -/
def checkModuleDeclarations (st : DeclState V) (m : LoadedModule) : Except DeclarationError Unit := do
  let mf := m.manifest
  firstError (fun d => if live st.modules d then none else some (.dependsOn d)) mf.dependsOn
  firstError (fun n =>
    match st.modules.get? n with
    | none => none
    | some other =>
      if n ≠ mf.name ∧ other.status ≠ .failed ∧
          (n ∈ mf.conflictsWith ∨ mf.name ∈ other.manifest.conflictsWith) then
        some (.conflictsWith mf.name n)
      else none) (st.incumbents.insertionSort fun a b => nameLe a b)
  firstError (fun md => (ownerOf st.models md).map (.ownedModels md)) mf.ownedModels
  firstError (fun p => (ownerOf st.providers p).map (.oauthProvider p)) mf.oauthProvider.toList
  firstError (fun p => (ownerOf st.permissions p).map (.permission p)) mf.permissions
  firstError (fun t => if namesReport st.modules t then none else some (.reportOverrides t)) mf.reportOverrides

/-- The declarations and then the routes of a module. -/
def checkModule (st : DeclState V) (name : String) (m : LoadedModule) : Except DeclarationError V.RouteTable :=
  match checkModuleDeclarations st m with
  | .error e => .error e
  | .ok () =>
    match V.registerRoutes st.table name m with
    | .error text => .error (.routes text)
    | .ok table => .ok table

/-- A round of `validateModuleDeclarations`. -/
def declare (st : DeclState V) (name : String) : DeclState V :=
  match st.modules.get? name with
  | none => st
  | some m =>
    if m.status = .failed then st
    else
      match checkModule st name m with
      | .error e => { st with modules := failModule st.modules name e.message }
      | .ok table =>
        { st with
          incumbents := name :: st.incumbents
          models := m.manifest.ownedModels.map (·, name) ++ st.models
          permissions := m.manifest.permissions.map (·, name) ++ st.permissions
          providers := m.manifest.oauthProvider.toList.map (·, name) ++ st.providers
          table := table }

/-- The modules by load order, and by name within it. -/
def validationOrder (ms : Modules) : List String :=
  (ms.rows.insertionSort fun x y =>
    x.2.loadOrder < y.2.loadOrder ∨ (x.2.loadOrder = y.2.loadOrder ∧ nameLe x.1 y.1)).map Prod.fst

variable (V) in
/-- `validateModuleDeclarations`: the modules in load order. -/
def validateModuleDeclarations (ms : Modules) : Modules :=
  ((validationOrder ms).foldl declare ⟨ms, [], [], [], [], V.newTable⟩).modules

/-! ## Event subscriptions -/

/-- `EventSubscriptionProblem`, given the declarations of the event. -/
def eventSubscriptionProblem (sub : EventSubscription) (emitted : List EventDeclaration) : Option String :=
  if isSystem sub.name then
    if !sub.async then some ("system event " ++ quote sub.name ++ " requires async: true") else none
  else if emitted = [] then some ("subscribes to unknown event " ++ quote sub.name)
  else if !emitted.any (·.effectiveVersion = sub.effectiveVersion) then
    some ("subscribes to event " ++ quote sub.name ++ " version " ++ toString sub.effectiveVersion ++
      ", which no loaded module emits")
  else none

/-- The declarations of an event by modules that have not failed. -/
def emittedBy (ms : Modules) (eventName : String) : List EventDeclaration :=
  (ms.rows.filter fun x => !isFailed x.2).flatMap fun x => x.2.manifest.emits.filter (·.name = eventName)

/-- The first problem that is not excused by a soft dependency on the owner of the event. -/
def subscriptionProblem (ms : Modules) (m : LoadedModule) : Option String :=
  m.manifest.subscribes.findSome? fun sub =>
    match eventSubscriptionProblem sub (emittedBy ms sub.name) with
    | none => none
    | some problem =>
      let owner := match cutDot sub.name.toList with
        | none => sub.name
        | some (owner, _) => String.ofList owner
      if owner ∈ m.manifest.softDependsOn then none else some problem

/-- `loader.ValidateEventSubscriptions`: every module is checked against the declarations on entry. -/
def validateEventSubscriptions (ms : Modules) : Modules :=
  ms.update fun _ m =>
    if isFailed m then m
    else
      match subscriptionProblem ms m with
      | none => m
      | some problem => m.fail problem

/-! ## The module set -/

variable (V) in
/-- One pass of `ValidateModuleSet`. -/
def validatePass (ms : Modules) : Modules :=
  let ms := validateModuleDeclarations V ms
  let ms := V.validateModelExtensions.run ms
  let ms := validateEventSubscriptions ms
  let ms := V.validateUsesConfig.run ms
  let ms := V.validateUsesPermissions.run ms
  let ms := V.validateViewExtensions.run ms
  V.validateModelReferences.run ms

variable (V) in
/-- The loop of `ValidateModuleSet`; each round but the last fails a module. -/
def validateLoop : (fuel : Nat) → Modules → Modules
  | 0, ms => ms
  | fuel + 1, ms =>
    if failedCount (validatePass V ms) = failedCount ms then validatePass V ms
    else validateLoop fuel (validatePass V ms)

variable (V) in
/-- Every pass but the last fails a module, so there are at most as many more as modules. -/
def validateModuleSet (ms : Modules) : Modules := validateLoop V (ms.rows.length + 1) ms

/-! ### A pass only fails modules -/

/-- A round does nothing but fail modules. -/
theorem declare_onlyFails (st : DeclState V) (name : String) : OnlyFails st.modules (declare st name).modules := by
  unfold declare
  split
  · exact OnlyFails.refl _
  split
  · exact OnlyFails.refl _
  split
  · exact OnlyFails.failModule _ _ _
  · exact OnlyFails.refl _

theorem foldl_declare_onlyFails (names : List String) (st : DeclState V) :
    OnlyFails st.modules (names.foldl declare st).modules := by
  induction names generalizing st with
  | nil => exact OnlyFails.refl _
  | cons name names ih => exact (declare_onlyFails st name).trans (ih (declare st name))

theorem validateEventSubscriptions_onlyFails (ms : Modules) : OnlyFails ms (validateEventSubscriptions ms) := by
  refine ⟨_, ?_, rfl⟩
  intro _ m
  show Fails m (if isFailed m then m else _)
  split
  · exact Or.inl rfl
  split
  · exact Or.inl rfl
  · exact Or.inr ⟨_, rfl⟩

/-- What follows the declarations in a pass. -/
theorem validateModuleDeclarations_onlyFails_pass (ms : Modules) :
    OnlyFails (validateModuleDeclarations V ms) (validatePass V ms) :=
  (V.validateModelExtensions.onlyFails _).trans <|
    (validateEventSubscriptions_onlyFails _).trans <|
      (V.validateUsesConfig.onlyFails _).trans <|
        (V.validateUsesPermissions.onlyFails _).trans <|
          (V.validateViewExtensions.onlyFails _).trans (V.validateModelReferences.onlyFails _)

theorem validatePass_onlyFails (ms : Modules) : OnlyFails ms (validatePass V ms) :=
  (foldl_declare_onlyFails _ _).trans (validateModuleDeclarations_onlyFails_pass ms)

/-! ### A pass that fails none -/

variable {m : LoadedModule}

/-- A module that a round leaves live has live dependencies at that point. -/
theorem dependencies_live_of_declare {st : DeclState V} {d : String} (hm : (declare st name).modules.get? name = some m)
    (hl : m.status ≠ .failed) (hd : d ∈ m.manifest.dependsOn) : Live st.modules d := by
  obtain ⟨m₀, hm₀, hfails⟩ := (declare_onlyFails st name).get? hm
  obtain rfl := hfails.eq_of_live hl
  unfold declare at hm
  simp only [hm₀, hl, if_false] at hm
  cases hcheck : checkModule st name m with
  | error e =>
    simp only [hcheck, failModule, Table.get?_update, hm₀, Option.map_some, if_true, Option.some.injEq] at hm
    exact absurd (congrArg LoadedModule.status hm).symm hl
  | ok table =>
    have hdecl : checkModuleDeclarations st m = .ok () := by
      unfold checkModule at hcheck
      split at hcheck
      · cases hcheck
      · assumption
    obtain ⟨_, hdeps, _⟩ := bind_eq_ok.mp hdecl
    have hnone := firstError_eq_ok.mp hdeps d hd
    apply live_iff.mp
    by_contra hlive
    simp [hlive] at hnone

theorem mem_validationOrder (hm : ms.get? name = some m) : name ∈ validationOrder ms := by
  apply mem_map.mpr
  exact ⟨(name, m), (perm_insertionSort _ _).mem_iff.mpr (Table.mem_rows.mpr hm), rfl⟩

/-- Through the loop: a module that is live at its end had live dependencies at its own round. -/
theorem dependencies_live_of_foldl {names : List String} {st : DeclState V} {d : String}
    (hname : name ∈ names) (hm : (names.foldl declare st).modules.get? name = some m)
    (hl : m.status ≠ .failed) (hd : d ∈ m.manifest.dependsOn) : Live st.modules d := by
  induction names generalizing st with
  | nil => exact absurd hname not_mem_nil
  | cons n names ih =>
    rcases mem_cons.mp hname with rfl | hname
    · obtain ⟨m₁, hm₁, hfails⟩ := (foldl_declare_onlyFails names (declare st name)).get? hm
      obtain rfl := hfails.eq_of_live hl
      exact dependencies_live_of_declare hm₁ hl hd
    · exact (declare_onlyFails st n).live (ih hname hm)

/-- The hard dependencies of live modules are live. -/
def DependenciesLive (ms : Modules) : Prop :=
  ∀ name m, ms.get? name = some m → m.status ≠ .failed → ∀ d ∈ m.manifest.dependsOn, Live ms d

/-- A pass that fails nothing has checked every dependency of what is live. -/
theorem dependenciesLive_of_pass (h : failedCount (validatePass V ms) = failedCount ms) :
    DependenciesLive (validatePass V ms) := by
  intro name m hm hl d hd
  obtain ⟨m₁, hm₁, hfails⟩ := (validateModuleDeclarations_onlyFails_pass ms).get? hm
  obtain rfl := hfails.eq_of_live hl
  obtain ⟨m₀, hm₀, _⟩ := (foldl_declare_onlyFails _ _).get? hm₁
  have hlive : Live ms d := dependencies_live_of_foldl (mem_validationOrder hm₀) hm₁ hl hd
  exact (validatePass_onlyFails ms).live_of_failedCount_eq h hlive

theorem failedCount_le_length (ms : Modules) : failedCount ms ≤ ms.rows.length := countP_le_length

/-- The loop fails modules only, and ends with live dependencies. -/
theorem validateLoop_spec {fuel : Nat} (hfuel : ms.rows.length < fuel + failedCount ms) :
    OnlyFails ms (validateLoop V fuel ms) ∧ DependenciesLive (validateLoop V fuel ms) := by
  induction fuel generalizing ms with
  | zero =>
    have hle := failedCount_le_length ms
    omega
  | succ fuel ih =>
    have hpass := validatePass_onlyFails (V := V) ms
    unfold validateLoop
    by_cases hcount : failedCount (validatePass V ms) = failedCount ms
    · rw [if_pos hcount]
      exact ⟨hpass, dependenciesLive_of_pass hcount⟩
    rw [if_neg hcount]
    have hle := hpass.failedCount_le
    have hlen := hpass.length_rows
    have hfuel' : (validatePass V ms).rows.length < fuel + failedCount (validatePass V ms) := by omega
    exact ⟨hpass.trans (ih hfuel').1, (ih hfuel').2⟩

theorem validateModuleSet_onlyFails (ms : Modules) : OnlyFails ms (validateModuleSet V ms) :=
  (validateLoop_spec (by omega)).1

theorem validateModuleSet_dependenciesLive (ms : Modules) : DependenciesLive (validateModuleSet V ms) :=
  (validateLoop_spec (by omega)).2

/-! ## A candidate -/

/-- The copies that a candidate is checked among. -/
def withCandidate (candidate : LoadedModule) (existing : Modules) : Modules :=
  let others := existing.filter fun name _ => name ≠ candidate.manifest.name
  let order := others.rows.foldl (fun o x => max o (x.2.loadOrder + 1)) candidate.loadOrder
  others.insert candidate.manifest.name { candidate with loadOrder := order }

/-- The first module, by name, that the candidate makes fail. -/
def brokenBy (candidate : LoadedModule) (existing modules : Modules) : Option (String × LoadedModule) :=
  (modules.rows.insertionSort fun x y => nameLe x.1 y.1).find? fun x =>
    isFailed x.2 && (x.1 = candidate.manifest.name || live existing x.1)

/-- `module %q: %s`. -/
structure CandidateError where
  name : String
  reason : String
deriving DecidableEq, Repr

variable (V) in
/-- `ValidateCandidate`: the candidate in its place, and whether anything else breaks. -/
def validateCandidate (candidate : LoadedModule) (existing : Modules) : Except CandidateError Modules :=
  let modules := validateModuleSet V (withCandidate candidate existing)
  match brokenBy candidate existing modules with
  | some x => .error ⟨x.1, x.2.failureReason⟩
  | none => .ok (modules.insert candidate.manifest.name candidate)

/-- What an accepted candidate is accepted into. -/
structure AcceptedInto (candidate : LoadedModule) (existing merged : Modules) : Prop where
  candidate_live : Live merged candidate.manifest.name
  live_of_live : ∀ name, Live existing name → Live merged name
  live_only : ∀ name, Live merged name → name = candidate.manifest.name ∨ Live existing name
  dependenciesLive : DependenciesLive merged

theorem withCandidate_get?_of_ne (candidate : LoadedModule) (existing : Modules)
    (h : name ≠ candidate.manifest.name) : (withCandidate candidate existing).get? name = existing.get? name := by
  rw [withCandidate, Table.get?_insert, if_neg h, Table.get?_filter]
  cases existing.get? name <;> simp [h]

theorem withCandidate_get?_self (candidate : LoadedModule) (existing : Modules) :
    ∃ m, (withCandidate candidate existing).get? candidate.manifest.name = some m ∧
      m.manifest = candidate.manifest ∧ m.status = candidate.status :=
  ⟨_, Table.get?_insert_self _ _ _, rfl, rfl⟩

theorem live_insert_of_ne {k : String} {v : LoadedModule} (h : name ≠ k) :
    Live (ms.insert k v) name ↔ Live ms name := by
  unfold Live
  rw [Table.get?_insert, if_neg h]

theorem live_insert_self {k : String} {v : LoadedModule} (h : v.status ≠ .failed) :
    Live (ms.insert k v) k := ⟨v, Table.get?_insert_self _ _ _, h⟩

/-- Modules that nothing breaks are live if they were or are the candidate. -/
theorem live_of_brokenBy_eq_none {candidate : LoadedModule} {existing modules : Modules}
    (h : brokenBy candidate existing modules = none) (hm : modules.get? name = some m)
    (hname : name = candidate.manifest.name ∨ Live existing name) : Live modules name := by
  refine ⟨m, hm, fun hf => ?_⟩
  have hmem : (name, m) ∈ modules.rows.insertionSort fun x y => nameLe x.1 y.1 :=
    (perm_insertionSort _ _).mem_iff.mpr (Table.mem_rows.mpr hm)
  have hnot := find?_eq_none.mp h _ hmem
  rcases hname with hname | hname
  · simp [isFailed, hf, hname] at hnot
  · simp [isFailed, hf, live_iff.mpr hname] at hnot

/-- An accepted candidate is live and breaks nothing that was. -/
theorem acceptedInto_of_validateCandidate {candidate : LoadedModule} {existing merged : Modules}
    (h : validateCandidate V candidate existing = .ok merged) : AcceptedInto candidate existing merged := by
  simp only [validateCandidate] at h
  split at h
  · cases h
  rename_i hbroken
  cases h
  have honly := validateModuleSet_onlyFails (V := V) (withCandidate candidate existing)
  have hdeps := validateModuleSet_dependenciesLive (V := V) (withCandidate candidate existing)
  generalize validateModuleSet V (withCandidate candidate existing) = modules at hbroken honly hdeps
  -- the copy of the candidate passed, so the candidate itself has not failed
  obtain ⟨copy, hcopy, hmanifest, hstatus⟩ := withCandidate_get?_self candidate existing
  obtain ⟨passed, hpassed, hfails⟩ := honly.get?_later hcopy
  have hpassedLive : passed.status ≠ .failed := by
    obtain ⟨m, hm, hl⟩ := live_of_brokenBy_eq_none hbroken hpassed (Or.inl rfl)
    rw [hpassed] at hm
    cases hm
    exact hl
  have hcandidate : candidate.status ≠ .failed := by
    rw [← hstatus, ← hfails.eq_of_live hpassedLive]
    exact hpassedLive
  have hmerged : ∀ name, Live modules name → Live (modules.insert candidate.manifest.name candidate) name := by
    intro name hl
    by_cases hname : name = candidate.manifest.name
    · exact hname ▸ live_insert_self hcandidate
    · exact (live_insert_of_ne hname).mpr hl
  constructor
  case candidate_live => exact live_insert_self hcandidate
  case live_of_live =>
    intro name hl
    by_cases hname : name = candidate.manifest.name
    · exact hname ▸ live_insert_self hcandidate
    obtain ⟨m, hm, hlive⟩ := hl
    obtain ⟨m', hm', _⟩ := honly.get?_later ((withCandidate_get?_of_ne candidate existing hname).trans hm)
    exact hmerged name (live_of_brokenBy_eq_none hbroken hm' (Or.inr ⟨m, hm, hlive⟩))
  case live_only =>
    intro name hl
    by_cases hname : name = candidate.manifest.name
    · exact Or.inl hname
    · obtain ⟨m, hm, hl⟩ := honly.live ((live_insert_of_ne hname).mp hl)
      exact Or.inr ⟨m, (withCandidate_get?_of_ne candidate existing hname).symm.trans hm, hl⟩
  case dependenciesLive =>
    intro name m hm hl d hd
    by_cases hname : name = candidate.manifest.name
    · subst hname
      rw [Table.get?_insert_self] at hm
      cases hm
      refine hmerged d (hdeps _ passed hpassed hpassedLive d ?_)
      rwa [hfails.manifest, hmanifest]
    · rw [Table.get?_insert, if_neg hname] at hm
      exact hmerged d (hdeps name m hm hl d hd)

end GoErp.Loader
