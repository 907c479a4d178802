import GoErp.Domain.ValidateEval
import GoErp.Lib.Encoding
import GoErp.Lib.Run
import GoErp.Route.Lookup

/-!
# `Route.Registration` — the routes of a module

`route_module.go`, `route_model.go` and `route_action.go`. A module's explicit routes come first; then the operations
that its models enable and their workflow transitions are derived, except where an explicit route has the action or
the path. Each of these registrations asks `Registered` before `Register`, so a route that was registered is still
held by every later table (`Extends`).

The pluralisation of labels is a library's, and a parameter here.
-/

namespace GoErp.Route

open Lib List

/-! ## Declarations -/

structure Op where
  name : GoString
  permission : GoString := []

structure WorkflowTransition where
  from_ : GoString
  to_ : GoString
  actionName : GoString
  permission : GoString := []
  conditionExpr : GoString := []

structure NamedField where
  name : GoString
  workflowTransitions : List WorkflowTransition := []

inductive ModelBackend where
  | table
  | virtual
  | transient

structure ModelDeclaration where
  name : GoString
  labelPlural : GoString := []
  routePrefixOverride : GoString := []
  enabledOps : List Op := []
  fields : List NamedField := []
  backend : ModelBackend := .table

/-- `.` -/
def dot : UInt8 := 46

def ModelDeclaration.qualifiedName (md : ModelDeclaration) (module : GoString) : GoString :=
  if (module ++ [dot]).isPrefixOf md.name then md.name else module ++ [dot] ++ md.name

/-- The last dotted segment of the name. -/
def ModelDeclaration.resourceName (md : ModelDeclaration) : GoString := (md.name.splitOn dot).getLastD []

structure TransitionRef where
  from_ : GoString
  to_ : GoString

structure ExplicitRoute where
  method : GoString
  path : GoString := []
  auth : GoString := []
  permissions : List GoString := []
  pathParams : List (GoString × GoString) := []
  model : GoString := []
  responseIsList : Bool := false
  crudAction : GoString := []
  name : GoString := []
  scope : GoString := []
  transition : Option TransitionRef := none
  workflow : Option WorkflowManifest := none
  storageBackend : GoString := []
  /-- the route declares a type for its request body -/
  hasRequestType : Bool := false

inductive ConditionFault where
  /-- `parse condition: %w` -/
  | parse (e : Domain.ParseError)
  /-- `validate condition: %w` -/
  | validate (e : Domain.ValidateEvalError)
  deriving DecidableEq

/-- What is wrong with an action. -/
inductive ActionFault where
  /-- `which the module does not declare` -/
  | undeclaredModel
  /-- `is registered more than once` -/
  | registeredTwice
  /-- `shadows a workflow transition; register it through engine.HandleTransition` -/
  | shadowsTransition
  /-- `does not match a declared workflow transition` -/
  | noSuchTransition
  /-- `a transition override is a POST record action without a request body` -/
  | notPlainOverride
  | condition (fault : ConditionFault)
  /-- `unknown scope %q` -/
  | unknownScope (scope : GoString)
  /-- `the method of a reserved action is fixed, but %q was declared` -/
  | methodFixed (method : GoString)
  /-- `the scope of a reserved action is fixed, but %q was declared` -/
  | scopeFixed (scope : GoString)
  /-- `unsupported method %q` -/
  | unsupportedMethod (method : GoString)
  deriving DecidableEq

/-- The errors of a registration, with the data their messages print. -/
inductive RouteError where
  /-- `module %q: declared path %q must start with "/"` -/
  | noLeadingSlash (module path : GoString)
  /-- `module %q: declared path %q contains a %q segment` -/
  | dotSegment (module path segment : GoString)
  /-- `module %q: %s is a reserved engine namespace` -/
  | reservedNamespace (module path : GoString)
  /-- `module %q: %s is reserved for connector-type modules` -/
  | connectorNamespace (module path : GoString)
  /-- `module %q: duplicate route %s %s` -/
  | duplicate (module method path : GoString)
  /-- `module %q: %s %s already registered` -/
  | alreadyRegistered (module method path : GoString)
  /-- `module %q: models %q and %q both derive %s %s from EnableOps` -/
  | bothDerive (module claimant model method path : GoString)
  /-- `module %q: models %q and %q both derive %s %s from a workflow transition` -/
  | bothDeriveTransition (module claimant model method path : GoString)
  /-- `module %q: transition override on model %q requires an action name` -/
  | overrideWithoutName (module model : GoString)
  /-- `module %q: action %q on model %q: …` -/
  | action (module action model : GoString) (fault : ActionFault)
  deriving DecidableEq

/-! ## Paths -/

def connector : GoString := go "connector"

/-- `ModulePathPrefix` -/
def modulePath (moduleName moduleType : GoString) : GoString :=
  if moduleType = connector then go "/connectors/" ++ moduleName else slash :: moduleName

def storageBackendString : ModelBackend → GoString
  | .transient => go "transient"
  | .virtual => go "virtual"
  | .table => go "table"

section

-- `inflect.Parameterize(inflect.Pluralize(label))`
variable (inflect : GoString → GoString)

def pluralPathSegment (md : ModelDeclaration) : GoString :=
  if md.routePrefixOverride ≠ [] then trimSlashes md.routePrefixOverride
  else inflect (if md.labelPlural = [] then md.resourceName else md.labelPlural)

/-- `plural + "/{id}"` -/
def recordPath (md : ModelDeclaration) : GoString := slash :: pluralPathSegment inflect md ++ go "/\x7bid\x7d"

def deriveCRUDPath (md : ModelDeclaration) (op : GoString) : GoString × GoString :=
  let plural := slash :: pluralPathSegment inflect md
  if op = go "list" then (go "GET", plural)
  else if op = go "get" then (go "GET", recordPath inflect md)
  else if op = go "create" then (go "POST", plural)
  else if op = go "update" then (go "PUT", recordPath inflect md)
  else if op = go "delete" then (go "DELETE", recordPath inflect md)
  else if op = go "preview" then (go "POST", plural ++ go "/preview")
  else if op = go "pivot" then (go "GET", plural ++ go "/pivot")
  else (go "POST", recordPath inflect md ++ slash :: op)

/-! ## Action routes -/

def isReservedAction (name : GoString) : Bool :=
  name ∈ [go "list", go "get", go "create", go "update", go "delete", go "preview", go "pivot"]

def actionMethods : List GoString := [go "GET", go "POST", go "PUT", go "PATCH", go "DELETE"]

def scopeRecord : GoString := go "record"

def scopeCollection : GoString := go "collection"

/-- `deriveActionRoute`: method, path and path parameters. -/
def deriveActionRoute (md : ModelDeclaration) (r : ExplicitRoute) :
    Except ActionFault (GoString × GoString × List (GoString × GoString)) :=
  if r.scope ≠ [] ∧ r.scope ≠ scopeRecord ∧ r.scope ≠ scopeCollection then .error (.unknownScope r.scope)
  else if r.transition.isNone ∧ isReservedAction r.name then
    if r.method ≠ [] then .error (.methodFixed r.method)
    else if r.scope ≠ [] then .error (.scopeFixed r.scope)
    else
      let (method, path) := deriveCRUDPath inflect md r.name
      .ok (method, path, r.pathParams)
  else
    let method := if r.method = [] then go "POST" else r.method
    if method ∉ actionMethods then .error (.unsupportedMethod method)
    else if r.scope = scopeCollection then
      .ok (method, slash :: pluralPathSegment inflect md ++ slash :: r.name, r.pathParams)
    else
      let pathParams :=
        if (Assoc.get? r.pathParams (go "id")).isSome then r.pathParams
        else Assoc.put r.pathParams (go "id") (go "uuid")
      .ok (method, recordPath inflect md ++ slash :: r.name, pathParams)

/-- `modelWorkflow`: the first transition with the action's name, and its permission. -/
def modelWorkflow (md : ModelDeclaration) (action : GoString) : Option (WorkflowManifest × GoString) :=
  (md.fields.flatMap fun f => f.workflowTransitions.map fun t => (f, t)).findSome? fun (f, t) =>
    if t.actionName = action then some (⟨f.name, t.from_, t.to_, t.conditionExpr, none⟩, t.permission) else none

/-- The bytes as the parser of conditions reads them. -/
def byteText (s : GoString) : String := String.ofList (s.map byteChar)

/-- A transition's condition is parsed and checked when its route is registered. -/
def compileCondition (w : WorkflowManifest) : Except ConditionFault WorkflowManifest :=
  if w.condition = [] then .ok w
  else match Domain.parse (byteText w.condition) with
    | .error e => .error (.parse e)
    | .ok expr =>
      match Domain.validateEval expr with
      | .error e => .error (.validate e)
      | .ok _ => .ok { w with conditionExpr := some expr }

/-- The fields of a transition override that come from the model. -/
def resolveTransition (md : ModelDeclaration) (r : ExplicitRoute) (ref : TransitionRef) :
    Except ActionFault ExplicitRoute :=
  match modelWorkflow md r.name with
  | none => .error .noSuchTransition
  | some (workflow, permission) =>
    if ref.from_ ≠ workflow.from_ ∨ ref.to_ ≠ workflow.to_ then .error .noSuchTransition
    else if r.method ≠ [] ∨ r.scope ≠ [] ∨ r.hasRequestType then .error .notPlainOverride
    else match compileCondition workflow with
      | .error e => .error (.condition e)
      | .ok workflow => .ok { r with
          auth := go "required"
          permissions := if permission = [] then [] else [permission]
          workflow := some workflow
          crudAction := go "workflow_transition"
          storageBackend := storageBackendString md.backend
          responseIsList := false }

/-- One action route of `resolveActionRoutes`. -/
def resolveAction (md : ModelDeclaration) (r : ExplicitRoute) : Except ActionFault ExplicitRoute := do
  let r ← match r.transition with
    | none => if (modelWorkflow md r.name).isSome then .error .shadowsTransition else .ok r
    | some ref => resolveTransition md r ref
  let (method, path, pathParams) ← deriveActionRoute inflect md r
  .ok { r with method := method, path := path, pathParams := pathParams }

/-- The declaration of a model; of several, the last. -/
def declared (moduleName : GoString) (models : List ModelDeclaration) (model : GoString) : Option ModelDeclaration :=
  models.reverse.find? fun md => md.qualifiedName moduleName = model

/-- The loop of `resolveActionRoutes`. -/
def resolveLoop (moduleName : GoString) (models : List ModelDeclaration) (seen : List (GoString × GoString)) :
    List ExplicitRoute → Except RouteError (List ExplicitRoute)
  | [] => .ok []
  | r :: rs =>
    if r.transition.isSome ∧ r.name = [] then .error (.overrideWithoutName moduleName r.model)
    else if r.name = [] then do
      let rest ← resolveLoop moduleName models seen rs
      .ok (r :: rest)
    else match declared moduleName models r.model with
      | none => .error (.action moduleName r.name r.model .undeclaredModel)
      | some md =>
        if (r.model, r.name) ∈ seen then .error (.action moduleName r.name r.model .registeredTwice)
        else match resolveAction inflect md r with
          | .error fault => .error (.action moduleName r.name r.model fault)
          | .ok resolved => do
            let rest ← resolveLoop moduleName models ((r.model, r.name) :: seen) rs
            .ok (resolved :: rest)

def resolveActionRoutes (moduleName : GoString) (explicit : List ExplicitRoute) (models : List ModelDeclaration) :
    Except RouteError (List ExplicitRoute) :=
  if explicit.any fun r => r.name ≠ [] || r.transition.isSome then resolveLoop inflect moduleName models [] explicit
  else .ok explicit

end

/-! ## Explicit routes -/

/-- The entry of an explicit route. -/
def moduleEntry (moduleName path : GoString) (r : ExplicitRoute) : RouteEntry where
  moduleName := moduleName
  pathTemplate := path
  manifest :=
    { auth := r.auth
      permissions := r.permissions
      model := r.model
      responseIsList := r.responseIsList
      name := r.name
      pathParams := r.pathParams
      crudAction := r.crudAction
      storageBackend := r.storageBackend
      workflow := r.workflow }

def expandedPath (moduleName moduleType path : GoString) : GoString :=
  if path = [slash] then modulePath moduleName moduleType else modulePath moduleName moduleType ++ path

/-- The first segments that are the engine's own. -/
def reservedNamespaces : List GoString := [go "auth", go "admin", go "storage", go "modules", go "users"]

/-- The checks of one explicit route: its expanded path. -/
def checkRoute (table scratch : RouteTable) (moduleName moduleType : GoString) (r : ExplicitRoute) :
    Except RouteError GoString :=
  if r.path.head? ≠ some slash then .error (.noLeadingSlash moduleName r.path)
  else match (pathSegments r.path).find? isDots with
    | some segment => .error (.dotSegment moduleName r.path segment)
    | none =>
      let path := expandedPath moduleName moduleType r.path
      let first := (normalizePath path).takeWhile (· ≠ slash)
      if first.head? = some 95 ∨ first ∈ reservedNamespaces then .error (.reservedNamespace moduleName path)
      else if first = go "connectors" ∧ moduleType ≠ connector then .error (.connectorNamespace moduleName path)
      else if scratch.Registered r.method path then .error (.duplicate moduleName r.method path)
      else if table.Registered r.method path then .error (.alreadyRegistered moduleName r.method path)
      else .ok path

/-- A method, a path and the entry to be registered there. -/
structure Pending where
  method : GoString
  path : GoString
  entry : RouteEntry

/-- The first loop of `RegisterModuleRoutes`. -/
def collectRoutes (table : RouteTable) (moduleName moduleType : GoString) (scratch : RouteTable) :
    List ExplicitRoute → Except RouteError (List Pending)
  | [] => .ok []
  | r :: rs => do
    let path ← checkRoute table scratch moduleName moduleType r
    let entry := moduleEntry moduleName path r
    let rest ← collectRoutes table moduleName moduleType (scratch.Register r.method path entry) rs
    .ok (⟨r.method, path, entry⟩ :: rest)

/-- The second loop. -/
def registerAll (table : RouteTable) : List Pending → RouteTable
  | [] => table
  | p :: ps => registerAll (table.Register p.method p.path p.entry) ps

def RegisterModuleRoutes (table : RouteTable) (moduleName moduleType : GoString) (routes : List ExplicitRoute) :
    Except RouteError RouteTable := do
  let toRegister ← collectRoutes table moduleName moduleType New routes
  .ok (registerAll table toRegister)

/-! ## Derived routes -/

inductive SuppressedKind where
  | op
  | workflowTransition

structure SuppressedRoute where
  model : GoString
  op : GoString
  kind : SuppressedKind

/-- A route that a model derives: its action, its place, its entry, and the error if another model has the place. -/
structure Candidate where
  model : GoString
  action : GoString
  kind : SuppressedKind
  method : GoString
  path : GoString
  entry : Except RouteError RouteEntry
  clash : GoString → RouteError

/-- What the loop over the candidates has done. -/
structure Derived where
  table : RouteTable
  suppressed : List SuppressedRoute := []
  claimedThisCall : List (GoString × GoString) := []

/-- `explicitActionIdentities` -/
def explicitActionIdentities (table : RouteTable) (moduleName : GoString) : List (GoString × GoString) :=
  (table.All.filter fun r =>
    r.2.moduleName = moduleName && !r.2.manifest.engineNative && r.2.manifest.name ≠ []).map fun r =>
      (r.2.manifest.model, r.2.manifest.name)

/-- One candidate, in the loops of `RegisterModelRoutes` and `RegisterModelWorkflowActions`. -/
def deriveStep (claimedActions : List (GoString × GoString)) (s : Derived) (c : Candidate) :
    Except RouteError Derived :=
  let key := c.method ++ go " " ++ c.path
  match Assoc.get? s.claimedThisCall key with
  | some claimant => .error (c.clash claimant)
  | none =>
    if (c.model, c.action) ∈ claimedActions ∨ s.table.Registered c.method c.path then
      .ok { s with suppressed := s.suppressed ++ [⟨c.model, c.action, c.kind⟩] }
    else do
      let entry ← c.entry
      .ok { s with
        table := s.table.Register c.method c.path entry
        claimedThisCall := Assoc.put s.claimedThisCall key c.model }

/-- The loop; on an error the caller drops the table. -/
def registerDerived (claimedActions : List (GoString × GoString)) (s : Derived) :
    List Candidate → Except RouteError Derived
  | [] => .ok s
  | c :: cs => do
    let s ← deriveStep claimedActions s c
    registerDerived claimedActions s cs

section

variable (inflect : GoString → GoString)

def opCandidate (moduleName moduleType : GoString) (md : ModelDeclaration) (op : Op) : Candidate :=
  let (method, relPath) := deriveCRUDPath inflect md op.name
  let path := modulePath moduleName moduleType ++ relPath
  let model := md.qualifiedName moduleName
  { model := model
    action := op.name
    kind := .op
    method := method
    path := path
    entry := .ok
      { moduleName := moduleName
        pathTemplate := path
        manifest :=
          { auth := go "required"
            permissions := if op.permission = [] then [] else [op.permission]
            model := model
            responseIsList := op.name = go "list"
            crudAction := op.name
            engineNative := true
            storageBackend := storageBackendString md.backend } }
    clash := fun claimant => .bothDerive moduleName claimant model method path }

def transitionCandidate (moduleName moduleType : GoString) (md : ModelDeclaration) (field : GoString)
    (t : WorkflowTransition) : Candidate :=
  let path := modulePath moduleName moduleType ++ (recordPath inflect md ++ slash :: t.actionName)
  let model := md.qualifiedName moduleName
  { model := model
    action := t.actionName
    kind := .workflowTransition
    method := go "POST"
    path := path
    entry := match compileCondition ⟨field, t.from_, t.to_, t.conditionExpr, none⟩ with
      | .error e => .error (.action moduleName t.actionName model (.condition e))
      | .ok workflow => .ok
        { moduleName := moduleName
          pathTemplate := path
          manifest :=
            { auth := go "required"
              permissions := if t.permission = [] then [] else [t.permission]
              model := model
              name := t.actionName
              crudAction := go "workflow_transition"
              engineNative := true
              storageBackend := storageBackendString md.backend
              workflow := some workflow } }
    clash := fun claimant => .bothDeriveTransition moduleName claimant model (go "POST") path }

/-- The CRUD routes of the models, except where an explicit route has their identity or their method and path. -/
def RegisterModelRoutes (table : RouteTable) (moduleName moduleType : GoString) (models : List ModelDeclaration) :
    Except RouteError Derived :=
  registerDerived (explicitActionIdentities table moduleName) { table := table }
    (models.flatMap fun md => md.enabledOps.map (opCandidate inflect moduleName moduleType md))

def RegisterModelWorkflowActions (table : RouteTable) (moduleName moduleType : GoString)
    (models : List ModelDeclaration) : Except RouteError Derived :=
  registerDerived (explicitActionIdentities table moduleName) { table := table }
    (models.flatMap fun md => md.fields.flatMap fun f =>
      f.workflowTransitions.map (transitionCandidate inflect moduleName moduleType md f.name))

/-- The explicit routes first: they suppress the derived ones. -/
def RegisterRoutes (table : RouteTable) (moduleName moduleType : GoString) (explicit : List ExplicitRoute)
    (models : List ModelDeclaration) : Except RouteError (RouteTable × List SuppressedRoute) := do
  let explicit ← resolveActionRoutes inflect moduleName explicit models
  let table ← RegisterModuleRoutes table moduleName moduleType explicit
  let derived ← RegisterModelRoutes inflect table moduleName moduleType models
  let workflow ← RegisterModelWorkflowActions inflect derived.table moduleName moduleType models
  .ok (workflow.table, derived.suppressed ++ workflow.suppressed)

/-! ## Accepted registrations -/

/-- A registration call of one module. -/
inductive Call where
  | moduleRoutes (moduleName moduleType : GoString) (routes : List ExplicitRoute)
  | modelRoutes (moduleName moduleType : GoString) (models : List ModelDeclaration)
  | workflowActions (moduleName moduleType : GoString) (models : List ModelDeclaration)
  | routes (moduleName moduleType : GoString) (explicit : List ExplicitRoute) (models : List ModelDeclaration)

/-- The table after a call that is accepted. -/
def callStep (table : RouteTable) : Call → Option RouteTable
  | .moduleRoutes name type routes => (RegisterModuleRoutes table name type routes).toOption
  | .modelRoutes name type models => (RegisterModelRoutes inflect table name type models).toOption.map Derived.table
  | .workflowActions name type models =>
    (RegisterModelWorkflowActions inflect table name type models).toOption.map Derived.table
  | .routes name type explicit models => (RegisterRoutes inflect table name type explicit models).toOption.map Prod.fst

end

/-- Every route of the first table is in the second. -/
def Extends (t t' : RouteTable) : Prop := ∀ method path entry, t.handler method path = some entry →
  t'.handler method path = some entry

theorem Extends.refl (t : RouteTable) : Extends t t := fun _ _ _ h => h

variable {t : RouteTable} {t' : RouteTable}

theorem Extends.trans {t'' : RouteTable} (h : Extends t t') (h' : Extends t' t'') : Extends t t'' :=
  fun method path entry hheld => h' method path entry (h method path entry hheld)

variable {path : GoString}

theorem handler_eq_none_iff {method : GoString} : t.handler method path = none ↔ t.Registered method path = false := by
  rw [← Option.not_isSome_iff_eq_none, ← registered_iff, Bool.not_eq_true]

/-- The handler at a path depends only on the keys of its segments. -/
theorem handler_congr (t : RouteTable) (method : GoString) {path' : GoString}
    (h : (pathSegments path).map key = (pathSegments path').map key) :
    t.handler method path = t.handler method path' := by
  rw [RouteTable.handler, RouteTable.handler, h]

/-- Registering where nothing is registered keeps what there is. -/
theorem extends_register {method : GoString} (hfree : t.Registered method path = false)
    (entry : RouteEntry) : Extends t (t.Register method path entry) := by
  intro m p e hheld
  rw [handler_register]
  split
  · rename_i hsame
    obtain ⟨rfl, hkeys⟩ := hsame
    rw [handler_congr t m hkeys, handler_eq_none_iff.mpr hfree] at hheld
    cases hheld
  · exact hheld

def Below (root path : GoString) : Prop := ∃ rest, path = root ++ rest ∧ (rest = [] ∨ rest.head? = some slash)

/-- What a call does: it registers routes below the module's path, one after the other, each where there is none. -/
inductive Registers (root : GoString) (t : RouteTable) : RouteTable → Prop where
  | refl : Registers root t t
  | step {t' : RouteTable} {method path : GoString} {entry : RouteEntry} (h : Registers root t t')
      (hfree : t'.Registered method path = false) (hbelow : Below root entry.pathTemplate) :
      Registers root t (t'.Register method path entry)

variable {root : GoString}

theorem Registers.extends (h : Registers root t t') : Extends t t' := by
  induction h with
  | refl => exact .refl t
  | step _ hfree _ ih => exact ih.trans (extends_register hfree _)

/-! ### Explicit routes -/

/-- Two routes are for one place. -/
def Pending.SamePlace (p q : Pending) : Prop :=
  p.method = q.method ∧ (pathSegments p.path).map key = (pathSegments q.path).map key

/-- Routes that can be registered one after the other: none has a place that is taken. -/
structure Free (t : RouteTable) (ps : List Pending) : Prop where
  unregistered : ∀ p ∈ ps, t.Registered p.method p.path = false
  apart : ps.Pairwise fun p q => ¬ p.SamePlace q

theorem registered_register_of_not_samePlace {p q : Pending} (h : ¬ p.SamePlace q) :
    (t.Register p.method p.path p.entry).Registered q.method q.path = t.Registered q.method q.path := by
  have hhandler : (t.Register p.method p.path p.entry).handler q.method q.path = t.handler q.method q.path := by
    rw [handler_register, if_neg fun hsame => h ⟨hsame.1.symm, hsame.2.symm⟩]
  rw [Bool.eq_iff_iff, registered_iff, registered_iff, hhandler]

variable {ps : List Pending}

theorem Free.tail {p : Pending} (h : Free t (p :: ps)) : Free (t.Register p.method p.path p.entry) ps := by
  obtain ⟨hp, hps⟩ := pairwise_cons.mp h.apart
  refine ⟨fun q hq => ?_, hps⟩
  rw [registered_register_of_not_samePlace (hp q hq)]
  exact h.unregistered q (mem_cons_of_mem p hq)

theorem Registers.registerAll (h : Registers root t t') (hfree : Free t' ps)
    (hbelow : ∀ p ∈ ps, Below root p.entry.pathTemplate) : Registers root t (registerAll t' ps) := by
  induction ps generalizing t' with
  | nil => exact h
  | cons p ps ih =>
    obtain ⟨hp, hps⟩ := forall_mem_cons.mp hbelow
    exact ih (h.step (hfree.unregistered p mem_cons_self) hp) hfree.tail hps

variable {moduleType moduleName : GoString}

theorem checkRoute_free {table scratch : RouteTable} {r : ExplicitRoute}
    (h : checkRoute table scratch moduleName moduleType r = .ok path) :
    scratch.Registered r.method path = false ∧ table.Registered r.method path = false ∧
      Below (modulePath moduleName moduleType) path := by
  unfold checkRoute at h
  split at h
  · cases h
  rename_i hslash
  split at h
  · cases h
  dsimp only at h
  iterate 2
    split at h
    · cases h
  split at h
  · cases h
  rename_i hscratch
  split at h
  · cases h
  rename_i htable
  cases h
  refine ⟨Bool.eq_false_iff.mpr hscratch, Bool.eq_false_iff.mpr htable, ?_⟩
  unfold expandedPath
  split
  · exact ⟨[], (append_nil _).symm, .inl rfl⟩
  · exact ⟨r.path, rfl, .inr (not_not.mp hslash)⟩

/-- The scratch table keeps the routes of one call apart. -/
theorem collectRoutes_free {table : RouteTable} {routes : List ExplicitRoute} {scratch : RouteTable}
    (h : collectRoutes table moduleName moduleType scratch routes = .ok ps) :
    Free table ps ∧ (∀ p ∈ ps, scratch.Registered p.method p.path = false) ∧
      ∀ p ∈ ps, Below (modulePath moduleName moduleType) p.entry.pathTemplate := by
  induction routes generalizing scratch ps with
  | nil =>
    cases h
    exact ⟨⟨nofun, List.Pairwise.nil⟩, nofun, nofun⟩
  | cons r rs ih =>
    obtain ⟨path, hcheck, h⟩ := bind_eq_ok.mp h
    obtain ⟨rest, hrest, h⟩ := bind_eq_ok.mp h
    cases h
    obtain ⟨hscratch, htable, hpath⟩ := checkRoute_free hcheck
    obtain ⟨hfree, hlater, hbelow⟩ := ih hrest
    -- a later route of the same place would be registered in the scratch table
    have hapart : ∀ q ∈ rest, ¬ Pending.SamePlace ⟨r.method, path, moduleEntry moduleName path r⟩ q := by
      intro q hq hsame
      have hnone := handler_eq_none_iff.mpr (hlater q hq)
      rw [handler_register, if_pos ⟨hsame.1.symm, hsame.2.symm⟩] at hnone
      cases hnone
    refine ⟨⟨forall_mem_cons.mpr ⟨htable, hfree.unregistered⟩, pairwise_cons.mpr ⟨hapart, hfree.apart⟩⟩, ?_,
      forall_mem_cons.mpr ⟨hpath, hbelow⟩⟩
    refine forall_mem_cons.mpr ⟨hscratch, fun q hq => ?_⟩
    rw [← hlater q hq]
    exact (registered_register_of_not_samePlace (hapart q hq)).symm

theorem registers_registerModuleRoutes {routes : List ExplicitRoute}
    (h : RegisterModuleRoutes t moduleName moduleType routes = .ok t') :
    Registers (modulePath moduleName moduleType) t t' := by
  obtain ⟨ps, hps, h⟩ := bind_eq_ok.mp h
  cases h
  obtain ⟨hfree, -, hbelow⟩ := collectRoutes_free hps
  exact Registers.refl.registerAll hfree hbelow

/-! ### Derived routes -/

/-- The entry of a candidate names the candidate's own path, and the path lies below the module's. -/
def Candidate.Sound (root : GoString) (c : Candidate) : Prop :=
  ∀ entry, c.entry = .ok entry → entry.pathTemplate = c.path ∧ Below root c.path

/-- A candidate is suppressed, or registered where nothing was. -/
theorem Registers.registerDerived {claimed : List (GoString × GoString)} {cs : List Candidate} {s s' : Derived}
    (h : Registers root t s.table) (hcs : ∀ c ∈ cs, c.Sound root) (hrun : registerDerived claimed s cs = .ok s') :
    Registers root t s'.table := by
  induction cs generalizing s with
  | nil =>
    cases hrun
    exact h
  | cons c cs ih =>
    obtain ⟨hc, hcs⟩ := forall_mem_cons.mp hcs
    obtain ⟨mid, hmid, hrun⟩ := bind_eq_ok.mp hrun
    refine ih ?_ hcs hrun
    unfold deriveStep at hmid
    dsimp only at hmid
    split at hmid
    · cases hmid
    split at hmid
    · cases hmid
      exact h
    rename_i hfree
    obtain ⟨entry, hentry, hmid⟩ := bind_eq_ok.mp hmid
    cases hmid
    obtain ⟨hpath, hbelow⟩ := hc entry hentry
    exact h.step (Bool.eq_false_iff.mpr fun hreg => hfree (.inr hreg)) (hpath ▸ hbelow)

section

/-- The candidates of `RegisterModelRoutes`, in its order. -/
def opCandidates (inflect : GoString → GoString) (moduleName moduleType : GoString) (models : List ModelDeclaration) :
    List Candidate :=
  models.flatMap fun md => md.enabledOps.map (opCandidate inflect moduleName moduleType md)

/-- The candidates of `RegisterModelWorkflowActions`, in its order. -/
def transitionCandidates (inflect : GoString → GoString) (moduleName moduleType : GoString)
    (models : List ModelDeclaration) : List Candidate :=
  models.flatMap fun md => md.fields.flatMap fun f =>
    f.workflowTransitions.map (transitionCandidate inflect moduleName moduleType md f.name)

variable {inflect : GoString → GoString} {models : List ModelDeclaration} {d : Derived} {t' : RouteTable}

theorem opCandidates_sound :
    ∀ c ∈ opCandidates inflect moduleName moduleType models, c.Sound (modulePath moduleName moduleType) := by
  intro c hc entry hentry
  obtain ⟨md, -, hc⟩ := mem_flatMap.mp hc
  obtain ⟨op, -, rfl⟩ := mem_map.mp hc
  cases hentry
  refine ⟨rfl, (deriveCRUDPath inflect md op.name).2, rfl, .inr ?_⟩
  unfold deriveCRUDPath recordPath
  split_ifs <;> rfl

theorem transitionCandidates_sound :
    ∀ c ∈ transitionCandidates inflect moduleName moduleType models, c.Sound (modulePath moduleName moduleType) := by
  intro c hc entry hentry
  obtain ⟨md, -, hc⟩ := mem_flatMap.mp hc
  obtain ⟨f, -, hc⟩ := mem_flatMap.mp hc
  obtain ⟨w, -, rfl⟩ := mem_map.mp hc
  unfold transitionCandidate at hentry
  split at hentry
  · cases hentry
  · cases hentry
    exact ⟨rfl, _, rfl, .inr rfl⟩

theorem Registers.modelRoutes (h : Registers (modulePath moduleName moduleType) t t')
    (hd : RegisterModelRoutes inflect t' moduleName moduleType models = .ok d) :
    Registers (modulePath moduleName moduleType) t d.table :=
  Registers.registerDerived (s := { table := t' }) h opCandidates_sound hd

theorem Registers.workflowActions (h : Registers (modulePath moduleName moduleType) t t')
    (hd : RegisterModelWorkflowActions inflect t' moduleName moduleType models = .ok d) :
    Registers (modulePath moduleName moduleType) t d.table :=
  Registers.registerDerived (s := { table := t' }) h transitionCandidates_sound hd

theorem registers_registerRoutes {explicit : List ExplicitRoute} {suppressed : List SuppressedRoute}
    (h : RegisterRoutes inflect t moduleName moduleType explicit models = .ok (t', suppressed)) :
    Registers (modulePath moduleName moduleType) t t' := by
  obtain ⟨resolved, -, h⟩ := bind_eq_ok.mp h
  obtain ⟨t₁, h₁, h⟩ := bind_eq_ok.mp h
  obtain ⟨d, hd, h⟩ := bind_eq_ok.mp h
  obtain ⟨w, hw, h⟩ := bind_eq_ok.mp h
  cases h
  exact ((registers_registerModuleRoutes h₁).modelRoutes hd).workflowActions hw

end

/-! ### Calls -/

section

variable {inflect : GoString → GoString}

theorem eq_ok_of_toOption {ε α : Type} {x : Except ε α} {a : α} (h : x.toOption = some a) : x = .ok a := by
  cases x with
  | error e => cases h
  | ok b =>
    cases h
    rfl

/-- **An accepted call keeps every route.** -/
theorem extends_callStep {t t' : RouteTable} {call : Call} (h : callStep inflect t call = some t') : Extends t t' := by
  cases call with
  | moduleRoutes name type routes => exact (registers_registerModuleRoutes (eq_ok_of_toOption h)).extends
  | modelRoutes name type models =>
    obtain ⟨d, hd, rfl⟩ := Option.map_eq_some_iff.mp h
    exact (Registers.refl.modelRoutes (eq_ok_of_toOption hd)).extends
  | workflowActions name type models =>
    obtain ⟨d, hd, rfl⟩ := Option.map_eq_some_iff.mp h
    exact (Registers.refl.workflowActions (eq_ok_of_toOption hd)).extends
  | routes name type explicit models =>
    obtain ⟨r, hr, rfl⟩ := Option.map_eq_some_iff.mp h
    exact (registers_registerRoutes (eq_ok_of_toOption hr)).extends

theorem extends_run {t t' : RouteTable} {calls : List Call} (h : Run.run (callStep inflect) t calls = some t') :
    Extends t t' := by
  induction calls generalizing t with
  | nil =>
    cases h
    exact .refl _
  | cons call calls ih =>
    obtain ⟨mid, hmid, h⟩ := Run.run_cons.mp h
    exact (extends_callStep hmid).trans (ih h)

variable (inflect) in
/-- The entry was registered for the method by one of the calls: after it the table held it at its template. -/
def RegisteredBy (calls : List Call) (method : GoString) (entry : RouteEntry) : Prop :=
  ∃ before after t, calls = before ++ after ∧ Run.run (callStep inflect) New before = some t ∧
    t.handler method entry.pathTemplate = some entry

/-- **Every registered route is looked up with its own parameters, for all values, exactly if the parameter nodes on its
    way bear its own names and none of its segments is `.` or `..`.** -/
theorem lookup_registered_iff {calls : List Call} {rt : RouteTable}
    (hbuilt : Run.run (callStep inflect) New calls = some rt) {method : GoString} {entry : RouteEntry}
    (hregistered : RegisteredBy inflect calls method entry)
    (hdistinct : (paramNames (pathSegments entry.pathTemplate)).Nodup) :
    (∀ values, Assignment rt entry.pathTemplate values → Finds rt method entry values) ↔
      OwnNames rt entry.pathTemplate ∧ NoDots entry.pathTemplate := by
  obtain ⟨before, after, t, rfl, hbefore, hheld⟩ := hregistered
  rw [Run.run_append, hbefore] at hbuilt
  have hlater := extends_run hbuilt
  exact lookup_iff (hlater method entry.pathTemplate entry hheld) hdistinct

end

/-- A route without declarations beyond its path. -/
def plainRoute (path : String) : ExplicitRoute := { method := go "GET", path := go path }

/-- One module with the given routes. -/
def oneModule (paths : List String) : List Call := [.moduleRoutes (go "m") (go "app") (paths.map plainRoute)]

/-- The entry of such a route. -/
def plainEntry (path : String) : RouteEntry := moduleEntry (go "m") (go "/m" ++ go path) (plainRoute path)

/-- Routes with a common way: a parameter beside a fixed segment, one route below another, two parameters. -/
def itemRoutes : List String := ["/i/\x7ba\x7d/x", "/i/new", "/i/\x7ba\x7d", "/i/\x7ba\x7d/\x7bb\x7d"]

theorem lookup_registered_siblings : ∃ rt, Run.run (callStep id) New (oneModule itemRoutes) = some rt ∧
    ∀ path ∈ itemRoutes, ∀ values, Assignment rt (plainEntry path).pathTemplate values →
      Finds rt (go "GET") (plainEntry path) values := by
  obtain ⟨rt, hrt⟩ := Option.isSome_iff_exists.mp
    (show (Run.run (callStep id) New (oneModule itemRoutes)).isSome = true by decide +kernel)
  have hheld : ∀ path ∈ itemRoutes, (Run.run (callStep id) New (oneModule itemRoutes)).map
      (fun t => t.handler (go "GET") (plainEntry path).pathTemplate) = some (some (plainEntry path)) := by
    decide +kernel
  have hnames : ∀ path ∈ itemRoutes, (Run.run (callStep id) New (oneModule itemRoutes)).map
      (fun t => decide (OwnNames t (plainEntry path).pathTemplate)) = some true := by decide +kernel
  have hdistinct : ∀ path ∈ itemRoutes, (paramNames (pathSegments (plainEntry path).pathTemplate)).Nodup := by
    decide +kernel
  have hdots : ∀ path ∈ itemRoutes, ∀ s ∈ pathSegments (plainEntry path).pathTemplate, isDots s = false := by
    decide +kernel
  rw [hrt] at hheld hnames
  refine ⟨rt, hrt, fun path hpath => ?_⟩
  have hregistered : RegisteredBy id (oneModule itemRoutes) (go "GET") (plainEntry path) :=
    ⟨oneModule itemRoutes, [], rt, (append_nil _).symm, hrt, Option.some.inj (hheld path hpath)⟩
  refine (lookup_registered_iff hrt hregistered (hdistinct path hpath)).mpr ⟨?_, hdots path hpath⟩
  exact of_decide_eq_true (Option.some.inj (hnames path hpath))

/-- The parameter of the second route is reported under the name that the first route gave it. -/
theorem lookup_registered_renamed : ¬ ∀ (inflect : GoString → GoString) (calls : List Call) (rt : RouteTable),
    Run.run (callStep inflect) New calls = some rt → ∀ (method : GoString) (entry : RouteEntry),
    RegisteredBy inflect calls method entry → (paramNames (pathSegments entry.pathTemplate)).Nodup →
    ∀ values, Assignment rt entry.pathTemplate values → Finds rt method entry values := by
  intro hlookup
  obtain ⟨rt, hrt⟩ := Option.isSome_iff_exists.mp
    (show (Run.run (callStep id) New (oneModule ["/i/\x7ba\x7d/x", "/i/\x7bb\x7d"])).isSome = true by decide)
  have hheld : (Run.run (callStep id) New (oneModule ["/i/\x7ba\x7d/x", "/i/\x7bb\x7d"])).map
      (fun t => t.handler (go "GET") (plainEntry "/i/\x7bb\x7d").pathTemplate) =
      some (some (plainEntry "/i/\x7bb\x7d")) := by decide
  have hnames : (Run.run (callStep id) New (oneModule ["/i/\x7ba\x7d/x", "/i/\x7bb\x7d"])).map
      (fun t => decide (OwnNames t (plainEntry "/i/\x7bb\x7d").pathTemplate)) = some false := by decide
  have hdistinct : (paramNames (pathSegments (plainEntry "/i/\x7bb\x7d").pathTemplate)).Nodup := by decide
  rw [hrt] at hheld hnames
  have hheld' : rt.handler (go "GET") (plainEntry "/i/\x7bb\x7d").pathTemplate = some (plainEntry "/i/\x7bb\x7d") :=
    Option.some.inj hheld
  have hregistered : RegisteredBy id (oneModule ["/i/\x7ba\x7d/x", "/i/\x7bb\x7d"]) (go "GET")
      (plainEntry "/i/\x7bb\x7d") := ⟨oneModule _, [], rt, (append_nil _).symm, hrt, hheld'⟩
  have hfinds := hlookup id _ rt hrt (go "GET") (plainEntry "/i/\x7bb\x7d") hregistered hdistinct
  exact of_decide_eq_false (Option.some.inj hnames) ((lookup_iff hheld' hdistinct).mp hfinds).1

end GoErp.Route
