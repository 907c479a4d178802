import GoErp.Lib.Run
import GoErp.Permission.RoleMap

/-!
# `Permission.Requests` — publications, rebuilds and requests interleaved

`ModuleRegistry.Update…` publishes a snapshot with a fresh numbering, `RolePermissionMap` is rebuilt by other
operations, and `Checker.Authenticate` (`auth/authcheck/checker.go`) ORs the bits of the user's roles and tests them
with the numbers of the snapshot the request has pinned.

The state keeps every numbering published so far, because a rebuild may run with one that is no longer current.
`SystemInv`: a bit is the number of a permission granted in the tables its entry was built from, under some published
numbering.
-/

namespace GoErp.Permission

open Lib.Run List

/-! ## The system -/

/-- A request between pinning its snapshot and its permission check. -/
structure Request where
  reg : PermissionRegistry
  bits : PermissionBitfield
  /-- ghost: the roles looked up, with the tables their entries were built from -/
  looked : List (String × List RoleTables)

/-- The published numberings, the role map and the requests in flight. -/
structure System where
  /-- the numberings published so far, the current one first -/
  published : List PermissionRegistry
  roleMap : RoleMapSnapshot
  /-- ghost: the tables each entry of the map was built from -/
  source : String → List RoleTables
  requests : List Request

def System.new : System where
  published := []
  roleMap := NewRolePermissionMap
  source _ := []
  requests := []

inductive Event where
  /-- install, reload or uninstall: the modules of the new snapshot, in the order the map is ranged over -/
  | publish (modules : List LoadedModule)
  /-- `RebuildAll` or `Resync` with the numbering at this place of `published` -/
  | resync (reg : Nat) (active : Option (List (String × RoleTables)))
  | rebuildTenant (reg : Nat) (tenantSlug : String) (tables : RoleTables)
  /-- a request pins the current snapshot -/
  | pin
  /-- the body of `hydratePermissionSet`'s loop -/
  | lookup (req : Nat) (roleID : String)
  /-- the scopes of an API key -/
  | restrict (req : Nat) (scopes : List String)

def Request.lookup (req : Request) (s : System) (roleID : String) : Request :=
  match s.roleMap.bits roleID with
  | none => req
  | some bits => { req with bits := req.bits.or bits, looked := (roleID, s.source roleID) :: req.looked }

def Request.restrict (req : Request) (scopes : List String) : Request :=
  { req with bits := req.bits.and (setGrants req.reg [] scopes) }

/-- Ghost: after a tenant's rebuild, its fresh entries come from the tables just read. -/
def rebuiltSource (reg : PermissionRegistry) (tables : RoleTables) (source : String → List RoleTables) :
    String → List RoleTables :=
  match buildTenantRoles tables reg fun _ => none with
  | none => source
  | some (fresh, _) => fun r => if (fresh r).isSome then [tables] else source r

/-- A rebuild that fails leaves the map as it is. -/
def System.step (s : System) : Event → Option System
  | .publish modules => some { s with published := buildPermissionRegistry modules :: s.published }
  | .resync i active => do
    let reg ← s.published[i]?
    match Resync reg active with
    | none => some s
    | some m => some { s with roleMap := m, source := fun _ => (active.getD []).map Prod.snd }
  | .rebuildTenant i tenantSlug tables => do
    let reg ← s.published[i]?
    match RebuildTenant reg s.roleMap tenantSlug tables with
    | none => some s
    | some m => some { s with roleMap := m, source := rebuiltSource reg tables s.source }
  | .pin => do
    let reg ← s.published.head?
    some { s with requests := s.requests ++ [⟨reg, [], []⟩] }
  | .lookup i roleID => do
    let req ← s.requests[i]?
    some { s with requests := s.requests.set i (req.lookup s roleID) }
  | .restrict i scopes => do
    let req ← s.requests[i]?
    some { s with requests := s.requests.set i (req.restrict scopes) }

/-- The test for one required permission. -/
def Request.allows (req : Request) (p : String) : Bool :=
  match req.reg.Index p with
  | none => false
  | some idx => req.bits.Has idx

/-- Every check that passes is for a permission granted by name to a role of the user, or to one that role
    inherits from. -/
def System.Honest (s : System) : Prop :=
  ∀ req ∈ s.requests, ∀ p, req.allows p = true → ∃ x ∈ req.looked, Granted x.2 p x.1

/-! ## The invariant -/

/-- No number means one permission in `reg` and another in `reg'`. -/
def Agree (reg reg' : PermissionRegistry) : Prop :=
  ∀ p q i, reg.Index p = some i → reg'.Index q = some i → p = q

variable {reg : PermissionRegistry}

theorem Agree.symm {reg' : PermissionRegistry} (h : Agree reg reg') : Agree reg' reg :=
  fun p q i hp hq => (h q p i hq hp).symm

/-- A publication whose numbers mean what they meant in every snapshot before it. -/
def KeepsMeaning (s : System) : Event → Prop
  | .publish modules => ∀ reg ∈ s.published, Agree reg (buildPermissionRegistry modules)
  | _ => True

/-- Every bit is the number, under a published numbering, of a permission granted to one of the roles. -/
def Backed (published : List PermissionRegistry) (roles : List (String × List RoleTables))
    (bits : PermissionBitfield) : Prop :=
  ∀ i, bits.Has i = true → ∃ reg ∈ published, ∃ p, reg.Index p = some i ∧ ∃ x ∈ roles, Granted x.2 p x.1

variable {published : List PermissionRegistry}

theorem Backed.mono {published' : List PermissionRegistry} {roles roles' : List (String × List RoleTables)}
    {bits : PermissionBitfield} (h : Backed published roles bits) (hp : published ⊆ published') (hr : roles ⊆ roles') :
    Backed published' roles' bits := by
  intro i hi
  obtain ⟨reg, hreg, p, hidx, x, hx, hgranted⟩ := h i hi
  exact ⟨reg, hp hreg, p, hidx, x, hr hx, hgranted⟩

theorem backed_of_means (hreg : reg ∈ published) {data : List RoleTables} {roleID : String}
    {bits : PermissionBitfield} (h : Means reg data roleID bits) : Backed published [(roleID, data)] bits := by
  intro i hi
  obtain ⟨p, hidx, hgranted⟩ := h i hi
  exact ⟨reg, hreg, p, hidx, _, mem_singleton_self _, hgranted⟩

/-- The numberings agree, and every bit in use is the number of a permission granted in the tables. -/
structure SystemInv (s : System) : Prop where
  agree : ∀ reg ∈ s.published, ∀ reg' ∈ s.published, Agree reg reg'
  roleMap : ∀ r bits, s.roleMap.bits r = some bits → Backed s.published [(r, s.source r)] bits
  requests : ∀ req ∈ s.requests, req.reg ∈ s.published ∧ Backed s.published req.looked req.bits

theorem systemInv_new : SystemInv System.new where
  agree := by simp [System.new]
  roleMap r bits h := by cases h
  requests := by simp [System.new]

/-- Under the invariant a number has one meaning, so a bit authorises nothing else. -/
theorem SystemInv.honest {s : System} (h : SystemInv s) : s.Honest := by
  intro req hreq p hallows
  obtain ⟨hpinned, hbacked⟩ := h.requests req hreq
  unfold Request.allows at hallows
  split at hallows
  · cases hallows
  rename_i idx hidx
  obtain ⟨reg, hreg, q, hq, x, hx, hgranted⟩ := hbacked idx hallows
  obtain rfl : p = q := h.agree req.reg hpinned reg hreg p q idx hidx hq
  exact ⟨x, hx, hgranted⟩

/-! ## One step -/

section

variable {s : System}

theorem SystemInv.publish (h : SystemInv s) {modules : List LoadedModule} (hkeeps : KeepsMeaning s (.publish modules)) :
    SystemInv { s with published := buildPermissionRegistry modules :: s.published } where
  agree := by
    have hself : Agree (buildPermissionRegistry modules) (buildPermissionRegistry modules) :=
      fun p q i hp hq => (buildPermissionRegistry modules).injective p q i hp hq
    intro reg hreg reg' hreg'
    rcases mem_cons.mp hreg with rfl | hreg
    · rcases mem_cons.mp hreg' with rfl | hreg'
      · exact hself
      · exact (hkeeps reg' hreg').symm
    rcases mem_cons.mp hreg' with rfl | hreg'
    · exact hkeeps reg hreg
    · exact h.agree reg hreg reg' hreg'
  roleMap r bits hbits := (h.roleMap r bits hbits).mono (subset_cons_self _ _) (List.Subset.refl _)
  requests req hreq := by
    obtain ⟨hpinned, hbacked⟩ := h.requests req hreq
    exact ⟨mem_cons_of_mem _ hpinned, hbacked.mono (subset_cons_self _ _) (List.Subset.refl _)⟩

variable {m : RoleMapSnapshot}

/-- A new role map, each entry of which is backed. -/
theorem SystemInv.withMap (h : SystemInv s) {source : String → List RoleTables}
    (hm : ∀ r bits, m.bits r = some bits → Backed s.published [(r, source r)] bits) :
    SystemInv { s with roleMap := m, source := source } where
  agree := h.agree
  roleMap := hm
  requests := h.requests

theorem backed_resync {reg : PermissionRegistry} (hreg : reg ∈ s.published)
    {active : Option (List (String × RoleTables))} (hm : Resync reg active = some m) {r : String}
    {bits : PermissionBitfield} (hbits : m.bits r = some bits) :
    Backed s.published [(r, (active.getD []).map Prod.snd)] bits := by
  cases active with
  | none => cases hm
  | some tenants => exact backed_of_means hreg (Resync_means hm r bits hbits)

theorem SystemInv.backed_rebuild (h : SystemInv s) {reg : PermissionRegistry} (hreg : reg ∈ s.published)
    {tenantSlug : String} {tables : RoleTables} (hm : RebuildTenant reg s.roleMap tenantSlug tables = some m)
    {r : String} {bits : PermissionBitfield} (hbits : m.bits r = some bits) :
    Backed s.published [(r, rebuiltSource reg tables s.source r)] bits := by
  unfold RebuildTenant at hm
  unfold rebuiltSource
  cases hbuild : buildTenantRoles tables reg fun _ => none with
  | none =>
    rw [hbuild] at hm
    cases hm
  | some built =>
    rw [hbuild] at hm
    cases hm
    have hfresh : AllMean reg [tables] built.1 :=
      buildTenantRoles_means (mem_singleton_self _) (fun _ _ hr => by cases hr) hbuild
    unfold swapTenant at hbits
    dsimp only at hbits ⊢
    cases hr : built.1 r with
    | some b =>
      rw [hr] at hbits
      cases hbits
      exact backed_of_means hreg (hfresh r bits hr)
    | none =>
      -- an entry of another tenant: it stays, with its tables
      rw [hr] at hbits
      dsimp only at hbits
      split at hbits
      · cases hbits
      · exact h.roleMap r bits hbits

variable {req : Request}

/-- A request replaced by one that reads the same snapshot and is backed. -/
theorem SystemInv.setRequest (h : SystemInv s) {i : Nat} (hpinned : req.reg ∈ s.published)
    (hbacked : Backed s.published req.looked req.bits) : SystemInv { s with requests := s.requests.set i req } where
  agree := h.agree
  roleMap := h.roleMap
  requests req' hreq' := by
    rcases mem_or_eq_of_mem_set hreq' with hmem | rfl
    · exact h.requests req' hmem
    · exact ⟨hpinned, hbacked⟩

theorem SystemInv.backed_lookup (h : SystemInv s) (hreq : req ∈ s.requests) (roleID : String) :
    (req.lookup s roleID).reg = req.reg ∧
      Backed s.published (req.lookup s roleID).looked (req.lookup s roleID).bits := by
  obtain ⟨-, hbacked⟩ := h.requests req hreq
  unfold Request.lookup
  split
  · exact ⟨rfl, hbacked⟩
  rename_i bits hbits
  refine ⟨rfl, fun i hi => ?_⟩
  rcases (PermissionBitfield.has_or _ _ _).mp hi with hi | hi
  · exact hbacked.mono (List.Subset.refl _) (subset_cons_self _ _) i hi
  · exact (h.roleMap roleID bits hbits).mono (List.Subset.refl _) (by simp) i hi

theorem backed_restrict (h : Backed s.published req.looked req.bits) (scopes : List String) :
    Backed s.published req.looked (req.restrict scopes).bits :=
  fun i hi => h i ((PermissionBitfield.has_and _ _ _).mp hi).1

end

/-- **The invariant is kept by every event** that keeps the meaning of the numbers. -/
theorem systemInv_step (s : System) (e : Event) (s' : System) (h : SystemInv s) (hkeeps : KeepsMeaning s e)
    (hstep : s.step e = some s') : SystemInv s' := by
  cases e with
  | publish modules =>
    cases hstep
    exact h.publish hkeeps
  | resync i active =>
    obtain ⟨reg, hreg, hstep⟩ := Option.bind_eq_some_iff.mp hstep
    split at hstep
    · cases hstep
      exact h
    rename_i m hm
    cases hstep
    exact h.withMap fun r bits hbits => backed_resync (mem_of_getElem? hreg) hm hbits
  | rebuildTenant i tenantSlug tables =>
    obtain ⟨reg, hreg, hstep⟩ := Option.bind_eq_some_iff.mp hstep
    split at hstep
    · cases hstep
      exact h
    rename_i m hm
    cases hstep
    exact h.withMap fun r bits hbits => h.backed_rebuild (mem_of_getElem? hreg) hm hbits
  | pin =>
    obtain ⟨reg, hreg, hstep⟩ := Option.bind_eq_some_iff.mp hstep
    cases hstep
    refine ⟨h.agree, h.roleMap, fun req hreq => ?_⟩
    rcases mem_append.mp hreq with hreq | hreq
    · exact h.requests req hreq
    · obtain rfl := mem_singleton.mp hreq
      -- a request starts with the current numbering and no bits
      exact ⟨mem_of_head? hreg, fun i hi => by cases hi⟩
  | lookup i roleID =>
    obtain ⟨req, hreq, hstep⟩ := Option.bind_eq_some_iff.mp hstep
    cases hstep
    have hmem := mem_of_getElem? hreq
    obtain ⟨hreg, hbacked⟩ := h.backed_lookup hmem roleID
    exact h.setRequest (hreg ▸ (h.requests req hmem).1) hbacked
  | restrict i scopes =>
    obtain ⟨req, hreq, hstep⟩ := Option.bind_eq_some_iff.mp hstep
    cases hstep
    obtain ⟨hpinned, hbacked⟩ := h.requests req (mem_of_getElem? hreq)
    exact h.setRequest hpinned (backed_restrict hbacked scopes)

/-! ## A number that changes its meaning -/

/-- One role, granted `p`. -/
def oneGrant (p : String) : RoleTables where
  allRoles := some [⟨"r", none⟩]
  allRolePermissions := some fun _ => [p]

theorem granted_oneGrant {p q role : String} (h : Granted [oneGrant p] q role) : q = p := by
  induction h with
  | own ht hroles hperms hr hp =>
    obtain rfl := mem_singleton.mp ht
    cases hperms
    exact mem_singleton.mp hp
  | inherited ht hroles hr hparent _ ih => exact ih

/-- A rebuild under `reg`, a publication, and a request that pins it and looks the role up. -/
def staleRun (i n : Nat) (p : String) (modules : List LoadedModule) : List Event :=
  [.resync i (some [("t", oneGrant p)]), .publish modules, .pin, .lookup n "r"]

/-- The request that `staleRun` ends with. -/
def staleRequest (reg : PermissionRegistry) (p : String) (modules : List LoadedModule) : Request where
  reg := buildPermissionRegistry modules
  bits := PermissionBitfield.or [] (setGrants reg [] [p])
  looked := [("r", [oneGrant p])]

theorem resync_oneGrant (reg : PermissionRegistry) (p : String) :
    ∃ m, Resync reg (some [("t", oneGrant p)]) = some m ∧ m.bits "r" = some (setGrants reg [] [p]) :=
  ⟨_, rfl, rfl⟩

theorem run_staleRun {s : System} {i : Nat} (hreg : s.published[i]? = some reg) (p : String)
    (modules : List LoadedModule) : ∃ s', run System.step s (staleRun i s.requests.length p modules) = some s' ∧
      staleRequest reg p modules ∈ s'.requests := by
  obtain ⟨m, hm, hbits⟩ := resync_oneGrant reg p
  refine ⟨⟨buildPermissionRegistry modules :: s.published, m, fun _ => [oneGrant p],
    s.requests ++ [staleRequest reg p modules]⟩, ?_, by simp⟩
  simp [staleRun, run, System.step, hreg, hm, Request.lookup, hbits, staleRequest]

/-- The request is allowed what has taken the number of its grant. -/
theorem staleRequest_allows {p q : String} {modules : List LoadedModule} {idx : Nat} (hp : reg.Index p = some idx)
    (hq : (buildPermissionRegistry modules).Index q = some idx) : (staleRequest reg p modules).allows q = true := by
  have hbit : (PermissionBitfield.or [] (setGrants reg [] [p])).Has idx = true :=
    (PermissionBitfield.has_or _ _ _).mpr (.inr (has_setGrants.mpr (.inr ⟨p, by simp, hp⟩)))
  unfold Request.allows staleRequest
  rw [hq]
  exact hbit

/-- **Permission bits keep their meaning in every run whose publications keep the meaning of the numbers**: a check
passes only for a permission granted by name. A publication that gives a number to another permission can always be
placed in a run that authorises the wrong one. -/
theorem permission_bits_keep_meaning (s : System) (es : List Event) (modules : List LoadedModule) :
    (Along System.step KeepsMeaning System.new es → run System.step System.new es = some s → s.Honest) ∧
    (¬ KeepsMeaning s (.publish modules) →
      ∃ before after s', run System.step s (before ++ .publish modules :: after) = some s' ∧ ¬ s'.Honest) := by
  constructor
  · intro hkeeps hrun
    exact (run_invariant systemInv_step systemInv_new hkeeps hrun).honest
  intro hbreaks
  simp only [KeepsMeaning, Agree] at hbreaks
  push Not at hbreaks
  obtain ⟨reg, hreg, p, q, idx, hp, hq, hne⟩ := hbreaks
  obtain ⟨i, hi⟩ := mem_iff_getElem?.mp hreg
  obtain ⟨s', hrun, hmem⟩ := run_staleRun hi p modules
  refine ⟨[.resync i (some [("t", oneGrant p)])], [.pin, .lookup s.requests.length "r"], s', hrun, ?_⟩
  intro hhonest
  obtain ⟨x, hx, hgranted⟩ := hhonest _ hmem q (staleRequest_allows hp hq)
  obtain rfl := mem_singleton.mp hx
  exact hne (granted_oneGrant hgranted).symm

def crmModule : LoadedModule := ⟨"crm", false, ["crm:contact:read"]⟩

def hrModule : LoadedModule := ⟨"hr", false, ["hr:salary:read"]⟩

/-- Two modules are installed, the role map is built, one module is reloaded, and a request comes in. -/
def reloadRun : List Event :=
  .publish [crmModule, hrModule] :: staleRun 0 0 "crm:contact:read" [crmModule, hrModule]

theorem permission_bits_keep_meaning_reload : ∃ s, run System.step System.new reloadRun = some s ∧ s.Honest ∧
      ∃ req ∈ s.requests, req.allows "crm:contact:read" = true := by
  let s1 : System := { System.new with published := [buildPermissionRegistry [crmModule, hrModule]] }
  have hfirst : s1.published[0]? = some (buildPermissionRegistry [crmModule, hrModule]) := rfl
  obtain ⟨s, hrun, hmem⟩ := run_staleRun hfirst "crm:contact:read" [crmModule, hrModule]
  have hall : run System.step System.new reloadRun = some s := hrun
  have hkeeps : Along System.step KeepsMeaning System.new reloadRun := by
    refine ⟨by simp [KeepsMeaning, System.new], fun s2 h2 => ⟨trivial, fun s3 h3 => ⟨?_, fun s4 h4 => ?_⟩⟩⟩
    · -- the reload numbers the same modules in the same order
      cases h2
      cases h3
      intro reg hreg p q i hp hq
      obtain rfl := mem_singleton.mp hreg
      exact (buildPermissionRegistry [crmModule, hrModule]).injective p q i hp hq
    · exact ⟨trivial, fun s5 h5 => ⟨trivial, fun s6 h6 => trivial⟩⟩
  have hindex : (buildPermissionRegistry [crmModule, hrModule]).Index "crm:contact:read" = some 1 := by
    decide
  exact ⟨s, hall, (permission_bits_keep_meaning s reloadRun []).1 hkeeps hall, _, hmem,
    staleRequest_allows hindex hindex⟩

/-- **Uninstalling a module renumbers the others**: a role granted only `crm:contact:read` passes the check for
    `hr:salary:read` in a request made after `crm` is uninstalled, as no rebuild follows. -/
theorem uninstall_changes_meaning : ∃ s, run System.step System.new
        (.publish [crmModule, hrModule] :: staleRun 0 0 "crm:contact:read" [hrModule]) = some s ∧
      ¬ s.Honest := by
  let s1 : System := { System.new with published := [buildPermissionRegistry [crmModule, hrModule]] }
  have hfirst : s1.published[0]? = some (buildPermissionRegistry [crmModule, hrModule]) := rfl
  obtain ⟨s, hrun, hmem⟩ := run_staleRun hfirst "crm:contact:read" [hrModule]
  refine ⟨s, hrun, fun hhonest => ?_⟩
  have hold : (buildPermissionRegistry [crmModule, hrModule]).Index "crm:contact:read" = some 1 := by
    decide
  have hnew : (buildPermissionRegistry [hrModule]).Index "hr:salary:read" = some 1 := by decide
  obtain ⟨x, hx, hgranted⟩ := hhonest _ hmem _ (staleRequest_allows hold hnew)
  obtain rfl := mem_singleton.mp hx
  have heq := granted_oneGrant hgranted
  exact absurd heq (by decide)

end GoErp.Permission
