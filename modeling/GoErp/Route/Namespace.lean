import GoErp.Route.Registration

/-!
# `Route.Namespace` — the engine's own namespaces

`RegisterModuleRoutes` refuses a path whose first segment belongs to the engine; the routes that models derive are
registered without that check. All routes of a module begin with the same segment, so the check on explicit routes
decides nothing about derived ones: `users`, a name that manifests accept (`manifest/validators.go`), takes `/users`.
-/

namespace GoErp.Route

open Lib List

/-- `validNameRegex` and the reserved name `engine`. -/
def validName (name : GoString) : Bool :=
  let lower (b : UInt8) : Bool := 97 ≤ b && b ≤ 122
  name.head?.any lower && name.length ≤ 64 &&
    name.all (fun b => lower b || (48 ≤ b && b ≤ 57) || b = 95) && name ≠ go "engine"

def firstSegment (path : GoString) : GoString := (path.dropWhile (· = slash)).takeWhile (· ≠ slash)

/-- The segments that a module of the type must not begin with. -/
def EngineNamespace (moduleType first : GoString) : Prop :=
  first.head? = some 95 ∨ first ∈ reservedNamespaces ∨ first = go "connectors" ∧ moduleType ≠ connector

/-- The second table holds the route, and the first does not. -/
def Added (t t' : RouteTable) (method : GoString) (entry : RouteEntry) : Prop :=
  t'.handler method entry.pathTemplate = some entry ∧ t.handler method entry.pathTemplate ≠ some entry

variable {root moduleName moduleType : GoString} {t t' : RouteTable}

theorem Registers.below_of_added (h : Registers root t t') {method : GoString} {entry : RouteEntry}
    (hadded : Added t t' method entry) :
    Below root entry.pathTemplate := by
  obtain ⟨hheld, hnew⟩ := hadded
  induction h with
  | refl => exact absurd hheld hnew
  | step _ _ hbelow ih =>
    rw [handler_register] at hheld
    split at hheld
    · cases hheld
      exact hbelow
    · exact ih hheld

/-! ## Calls that register nothing -/

/-- A derived route that is left out: the module has an explicit route for the action, or the place is taken. -/
def Suppressed (t : RouteTable) (moduleName : GoString) (c : Candidate) : Prop :=
  (c.model, c.action) ∈ explicitActionIdentities t moduleName ∨ t.Registered c.method c.path

/-- The call has nothing to register: no explicit route, and every route of its models is left out. -/
structure Idle (inflect : GoString → GoString) (t : RouteTable) (moduleName moduleType : GoString)
    (explicit : List ExplicitRoute) (models : List ModelDeclaration) : Prop where
  noExplicit : explicit = []
  ops : ∀ c ∈ opCandidates inflect moduleName moduleType models, Suppressed t moduleName c
  transitions : ∀ c ∈ transitionCandidates inflect moduleName moduleType models, Suppressed t moduleName c

def NoneAdded (t t' : RouteTable) : Prop := ∀ method entry, ¬ Added t t' method entry

theorem NoneAdded.refl (t : RouteTable) : NoneAdded t t := fun _ _ hadded => hadded.2 hadded.1

/-- What was new in the middle is still there at the end. -/
theorem NoneAdded.left {mid : RouteTable} (h : NoneAdded t t') (hext : Extends mid t') : NoneAdded t mid :=
  fun method entry hadded => h method entry ⟨hext _ _ _ hadded.1, hadded.2⟩

theorem not_noneAdded_register {method : GoString} {entry : RouteEntry}
    (hfree : t.Registered method entry.pathTemplate = false)
    (hext : Extends (t.Register method entry.pathTemplate entry) t') : ¬ NoneAdded t t' := by
  intro hnone
  refine hnone method entry ⟨hext _ _ _ ?_, ?_⟩
  · rw [handler_register, if_pos ⟨rfl, rfl⟩]
  · rw [handler_eq_none_iff.mpr hfree]
    nofun

/-- **The loop over the candidates adds nothing exactly if it leaves every candidate out**, and then the table is the
same. -/
theorem noneAdded_registerDerived {claimed : List (GoString × GoString)} {cs : List Candidate} {s s' : Derived}
    (hcs : ∀ c ∈ cs, c.Sound root) (hrun : registerDerived claimed s cs = .ok s') :
    (NoneAdded s.table s'.table → s'.table = s.table) ∧
      (s'.table = s.table ↔ ∀ c ∈ cs, (c.model, c.action) ∈ claimed ∨ s.table.Registered c.method c.path) := by
  induction cs generalizing s with
  | nil =>
    cases hrun
    exact ⟨fun _ => rfl, fun _ => nofun, fun _ => rfl⟩
  | cons c cs ih =>
    obtain ⟨hc, hcs⟩ := forall_mem_cons.mp hcs
    obtain ⟨mid, hmid, hrun⟩ := bind_eq_ok.mp hrun
    unfold deriveStep at hmid
    dsimp only at hmid
    split at hmid
    · cases hmid
    split at hmid
    · rename_i hheld
      cases hmid
      obtain ⟨hsame, hiff⟩ := ih hcs hrun
      exact ⟨hsame, by rw [forall_mem_cons, and_iff_right hheld]; exact hiff⟩
    · -- the candidate is registered, and the rest of the loop keeps its route
      rename_i hfree
      obtain ⟨entry, hentry, hmid⟩ := bind_eq_ok.mp hmid
      cases hmid
      have hext := (Registers.registerDerived .refl hcs hrun).extends
      rw [← (hc entry hentry).1] at hfree hext
      have hnew : ¬ NoneAdded s.table s'.table :=
        not_noneAdded_register (Bool.eq_false_iff.mpr fun hreg => hfree (.inr hreg)) hext
      refine ⟨fun hnone => absurd hnone hnew, fun hsame => ?_, fun hheld => ?_⟩
      · exact absurd (hsame ▸ NoneAdded.refl _) hnew
      · rw [(hc entry hentry).1] at hfree
        exact absurd (hheld c mem_cons_self) hfree

theorem resolveLoop_nil {inflect : GoString → GoString} {models : List ModelDeclaration}
    {seen : List (GoString × GoString)} {explicit resolved : List ExplicitRoute}
    (h : resolveLoop inflect moduleName models seen explicit = .ok resolved) : resolved = [] ↔ explicit = [] := by
  cases explicit with
  | nil =>
    cases h
    exact Iff.rfl
  | cons r rs =>
    unfold resolveLoop at h
    split at h
    · cases h
    split at h
    · obtain ⟨rest, -, h⟩ := bind_eq_ok.mp h
      cases h
      simp
    split at h
    · cases h
    split at h
    · cases h
    split at h
    · cases h
    obtain ⟨rest, -, h⟩ := bind_eq_ok.mp h
    cases h
    simp

theorem resolveActionRoutes_nil {inflect : GoString → GoString} {models : List ModelDeclaration}
    {explicit resolved : List ExplicitRoute}
    (h : resolveActionRoutes inflect moduleName explicit models = .ok resolved) : resolved = [] ↔ explicit = [] := by
  unfold resolveActionRoutes at h
  split at h
  · exact resolveLoop_nil h
  · cases h
    exact Iff.rfl

/-- An explicit route is registered, whatever follows. -/
theorem noneAdded_registerModuleRoutes {routes : List ExplicitRoute}
    (h : RegisterModuleRoutes t moduleName moduleType routes = .ok t') (hnone : NoneAdded t t') : routes = [] := by
  obtain ⟨ps, hps, h⟩ := bind_eq_ok.mp h
  cases h
  obtain ⟨hfree, -, hbelow⟩ := collectRoutes_free hps
  cases routes with
  | nil => rfl
  | cons r rs =>
    obtain ⟨path, hcheck, hps⟩ := bind_eq_ok.mp hps
    obtain ⟨rest, -, hps⟩ := bind_eq_ok.mp hps
    cases hps
    have hrest : Registers (modulePath moduleName moduleType)
        (t.Register r.method path (moduleEntry moduleName path r)) _ :=
      Registers.refl.registerAll hfree.tail (forall_mem_cons.mp hbelow).2
    have hplace : t.Registered r.method (moduleEntry moduleName path r).pathTemplate = false :=
      (checkRoute_free hcheck).2.1
    exact absurd hnone (not_noneAdded_register hplace hrest.extends)

/-- **A call adds no route exactly if it is idle**, which its table, its explicit routes and its models decide. -/
theorem noneAdded_registerRoutes {inflect : GoString → GoString} {explicit : List ExplicitRoute}
    {models : List ModelDeclaration} {suppressed : List SuppressedRoute}
    (h : RegisterRoutes inflect t moduleName moduleType explicit models = .ok (t', suppressed)) :
    NoneAdded t t' ↔ Idle inflect t moduleName moduleType explicit models := by
  obtain ⟨resolved, hresolved, h⟩ := bind_eq_ok.mp h
  obtain ⟨t₁, h₁, h⟩ := bind_eq_ok.mp h
  obtain ⟨d, hd, h⟩ := bind_eq_ok.mp h
  obtain ⟨w, hw, h⟩ := bind_eq_ok.mp h
  cases h
  have hd' := noneAdded_registerDerived opCandidates_sound hd
  have hw' := noneAdded_registerDerived transitionCandidates_sound hw
  have hnil := resolveActionRoutes_nil hresolved
  constructor
  · intro hnone
    have hkept : Extends d.table w.table := (Registers.refl.workflowActions hw).extends
    -- back from the last table to the first: each of the three calls has left its table as it was
    obtain rfl := noneAdded_registerModuleRoutes h₁
      (hnone.left ((Registers.refl.modelRoutes hd).extends.trans hkept))
    cases h₁
    have hsame : d.table = t := hd'.1 (hnone.left hkept)
    rw [hsame] at hw'
    exact ⟨hnil.mp rfl, hd'.2.mp hsame, hw'.2.mp (hw'.1 hnone)⟩
  · rintro ⟨hexplicit, hops, htransitions⟩
    obtain rfl := hnil.mpr hexplicit
    cases h₁
    have hsame : d.table = t := hd'.2.mpr hops
    rw [hsame] at hw'
    have hlast : w.table = t := hw'.2.mpr htransitions
    exact hlast ▸ NoneAdded.refl t

/-! ## The first segment -/

theorem firstSegment_cons {seg rest : GoString} (hne : seg ≠ []) (hseg : slash ∉ seg)
    (hrest : rest = [] ∨ rest.head? = some slash) : firstSegment (slash :: seg ++ rest) = seg := by
  have hclean : ∀ b ∈ seg, b ≠ slash := fun b hb h => hseg (h ▸ hb)
  have hdrop : (slash :: seg ++ rest).dropWhile (· = slash) = seg ++ rest := by
    cases seg with
    | nil => exact absurd rfl hne
    | cons b seg =>
      rw [cons_append, dropWhile_cons_of_pos (by decide), cons_append,
        dropWhile_cons_of_neg (by simpa using hclean b mem_cons_self)]
  rw [firstSegment, hdrop, takeWhile_append_of_pos (by simpa using hclean)]
  have hstop : rest.takeWhile (· ≠ slash) = [] := by
    cases rest with
    | nil => rfl
    | cons b rest =>
      cases hrest.resolve_left (cons_ne_nil b rest)
      rfl
  rw [hstop, append_nil]

theorem validName_spec (h : validName moduleName = true) :
    moduleName ≠ [] ∧ slash ∉ moduleName ∧ moduleName.head? ≠ some 95 := by
  simp only [validName, Bool.and_eq_true, all_eq_true] at h
  obtain ⟨⟨⟨hhead, -⟩, hall⟩, -⟩ := h
  refine ⟨?_, ?_, ?_⟩
  · rintro rfl
    cases hhead
  · intro hslash
    cases hall slash hslash
  · intro hunder
    rw [hunder] at hhead
    cases hhead

theorem firstSegment_of_below (hname : validName moduleName = true) {path : GoString}
    (h : Below (modulePath moduleName moduleType) path) :
    firstSegment path = if moduleType = connector then go "connectors" else moduleName := by
  obtain ⟨rest, rfl, hrest⟩ := h
  unfold modulePath
  split
  · have hslash : go "/connectors/" ++ moduleName ++ rest =
        slash :: go "connectors" ++ (slash :: moduleName ++ rest) := rfl
    rw [hslash]
    exact firstSegment_cons (by decide) (by decide) (.inr rfl)
  · obtain ⟨hne, hseg, -⟩ := validName_spec hname
    exact firstSegment_cons hne hseg hrest

/-- **When a module stays out of the engine's namespaces**: it is a connector, its name is none of them, or the call
has nothing to register. -/
theorem routes_outside_namespaces_iff {inflect : GoString → GoString} {explicit : List ExplicitRoute}
    {models : List ModelDeclaration} {suppressed : List SuppressedRoute} (hname : validName moduleName = true)
    (h : RegisterRoutes inflect t moduleName moduleType explicit models = .ok (t', suppressed)) :
    (∀ method entry, Added t t' method entry → ¬ EngineNamespace moduleType (firstSegment entry.pathTemplate)) ↔
      moduleType = connector ∨ moduleName ∉ go "connectors" :: reservedNamespaces ∨
        Idle inflect t moduleName moduleType explicit models := by
  rw [← noneAdded_registerRoutes h]
  have hfirst : ∀ method entry, Added t t' method entry →
      firstSegment entry.pathTemplate = if moduleType = connector then go "connectors" else moduleName := by
    intro method entry hadded
    exact firstSegment_of_below hname ((registers_registerRoutes h).below_of_added hadded)
  constructor
  · intro hout
    by_contra hnot
    obtain ⟨htype, hnot⟩ := not_or.mp hnot
    obtain ⟨hmem, hsome⟩ := not_or.mp hnot
    refine hsome fun method entry hadded => hout method entry hadded ?_
    rw [hfirst method entry hadded, if_neg htype]
    rcases mem_cons.mp (not_not.mp hmem) with hconn | hres
    · exact .inr (.inr ⟨hconn, htype⟩)
    · exact .inr (.inl hres)
  · rintro (htype | hmem | hnone) method entry hadded
    · rw [hfirst method entry hadded, if_pos htype, EngineNamespace, htype]
      decide
    · rw [hfirst method entry hadded]
      by_cases htype : moduleType = connector
      · rw [if_pos htype, EngineNamespace, htype]
        decide
      · rw [if_neg htype]
        rintro (hhead | hres | hconn)
        · exact (validName_spec hname).2.2 hhead
        · exact hmem (mem_cons_of_mem _ hres)
        · exact hmem (hconn.1 ▸ mem_cons_self)
    · exact absurd hadded (hnone method entry)

/-- A model with a list route. -/
def listed : ModelDeclaration := { name := go "item", labelPlural := go "items", enabledOps := [⟨go "list", []⟩] }

theorem routes_outside_namespaces_stock : ∃ t' suppressed,
    RegisterRoutes id New (go "stock") (go "app") [] [listed] = .ok (t', suppressed) ∧
    ∀ method entry, Added New t' method entry → ¬ EngineNamespace (go "app") (firstSegment entry.pathTemplate) := by
  obtain ⟨r, hr⟩ := Option.isSome_iff_exists.mp
    (show (RegisterRoutes id New (go "stock") (go "app") [] [listed]).toOption.isSome = true by decide +kernel)
  refine ⟨r.1, r.2, eq_ok_of_toOption hr, ?_⟩
  exact (routes_outside_namespaces_iff (by decide) (eq_ok_of_toOption hr)).mpr (.inr (.inl (by decide)))

/-- The module `users` gets the route `GET /users/items`. -/
theorem routes_inside_users : validName (go "users") = true ∧ ∃ t' suppressed method entry,
    RegisterRoutes id New (go "users") (go "app") [] [listed] = .ok (t', suppressed) ∧ Added New t' method entry ∧
      EngineNamespace (go "app") (firstSegment entry.pathTemplate) := by
  have hheld : (RegisterRoutes id New (go "users") (go "app") [] [listed]).toOption.bind (fun r =>
      (r.1.handler (go "GET") (go "/users/items")).map RouteEntry.pathTemplate) = some (go "/users/items") := by
    decide +kernel
  obtain ⟨r, hr, hheld⟩ := Option.bind_eq_some_iff.mp hheld
  obtain ⟨entry, hentry, hpath⟩ := Option.map_eq_some_iff.mp hheld
  refine ⟨by decide, r.1, r.2, go "GET", entry, eq_ok_of_toOption hr, ⟨hpath ▸ hentry, ?_⟩, ?_⟩
  · have hnew : New.handler (go "GET") (go "/users/items") = none := by decide
    rw [hpath, hnew]
    nofun
  · rw [hpath]
    exact .inr (.inl (by decide))

end GoErp.Route
