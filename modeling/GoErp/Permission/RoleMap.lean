import Mathlib.Data.List.Perm.Subperm
import GoErp.Lib.Except
import GoErp.Permission.Bitfield

/-!
# `Permission.RoleMap` — role bitfields resolved against one registry

`permcache/role_permission_map.go`: a rebuild reads the role tables and resolves every role, with the roles it
inherits from, to the bits of its grants under one `PermissionRegistry`. `Granted` says by name what the tables grant;
`Means` that each bit of a bitfield is the number of a permission granted so.

The recursion over parents stops at the first role it meets twice; `fuel` is never used up (`resolve_ne_outOfFuel`).
-/

namespace GoErp.Permission

open Lib List

/-! ## Role tables -/

structure Role where
  id : String
  parentID : Option String
  deriving DecidableEq

/-- What reading one tenant's role tables returns; `none` is a failed query. -/
structure RoleTables where
  allRoles : Option (List Role)
  allRolePermissions : Option (String → List String)

/-- `p` is granted by name to the role, or to a role it inherits from, in the tables read. -/
inductive Granted (data : List RoleTables) (p : String) : String → Prop where
  | own {t : RoleTables} {roles : List Role} {perms : String → List String} {r : Role}
      (ht : t ∈ data) (hroles : t.allRoles = some roles) (hperms : t.allRolePermissions = some perms)
      (hr : r ∈ roles) (hp : p ∈ perms r.id) : Granted data p r.id
  | inherited {t : RoleTables} {roles : List Role} {r : Role} {parent : String}
      (ht : t ∈ data) (hroles : t.allRoles = some roles) (hr : r ∈ roles) (hparent : r.parentID = some parent)
      (h : Granted data p parent) : Granted data p r.id

/-! ## Resolving -/

/-- The map from role ids to bitfields. -/
abbrev RoleBits := String → Option PermissionBitfield

def RoleBits.insert (dest : RoleBits) (id : String) (bits : PermissionBitfield) : RoleBits :=
  fun r => if r = id then some bits else dest r

/-- Why a role has no bits. -/
inductive ResolveError where
  | cycle (roleID : String)
  | notFound (roleID : String)
  | outOfFuel
  deriving DecidableEq

/-- Sets the bits of the names the registry knows. The other names are skipped. -/
def setGrants (reg : PermissionRegistry) (bits : PermissionBitfield) (names : List String) : PermissionBitfield :=
  names.foldl (fun b name => match reg.Index name with
    | some idx => b.set idx
    | none => b) bits

/-- The map `byID` that `buildTenantRoles` fills from the list. -/
def roleByID (roles : List Role) (id : String) : Option Role := roles.reverse.find? fun r => r.id = id

section

variable (roles : List Role) (rolePerms : String → List String) (reg : PermissionRegistry)

/-- The recursion over parents. `resolving` holds the roles that are waiting for their parent. -/
def resolveRoleBitfield : Nat → String → RoleBits → List String →
    Except ResolveError (PermissionBitfield × RoleBits)
  | 0, _, _, _ => .error .outOfFuel
  | fuel + 1, roleID, dest, resolving =>
    match dest roleID with
    | some bits => .ok (bits, dest)
    | none =>
      if roleID ∈ resolving then .error (.cycle roleID)
      else match roleByID roles roleID with
        | none => .error (.notFound roleID)
        | some r =>
          match r.parentID with
          | none =>
            let bits := setGrants reg [] (rolePerms roleID)
            .ok (bits, dest.insert roleID bits)
          | some parent => do
            let (parentBits, dest) ← resolveRoleBitfield fuel parent dest (roleID :: resolving)
            let bits := setGrants reg (PermissionBitfield.or [] parentBits) (rolePerms roleID)
            .ok (bits, dest.insert roleID bits)

/-- The loop over the roles. A role that fails to resolve is logged and skipped. -/
def resolveAll (pending : List Role) (dest : RoleBits) : RoleBits :=
  pending.foldl (fun dest r =>
    match resolveRoleBitfield roles rolePerms reg (roles.length + 1) r.id dest [] with
    | .ok (_, dest) => dest
    | .error _ => dest) dest

end

/-- `buildTenantRoles`: the bits with the tenant's roles added, and the tenant's role ids. -/
def buildTenantRoles (t : RoleTables) (reg : PermissionRegistry) (dest : RoleBits) :
    Option (RoleBits × List String) := do
  let allRoles ← t.allRoles
  if allRoles = [] then
    some (dest, [])
  else
    let rolePerms ← t.allRolePermissions
    some (resolveAll allRoles rolePerms reg allRoles dest, allRoles.map Role.id)

/-! ## The published map -/

structure RoleMapSnapshot where
  bits : RoleBits
  /-- tenant slug to its role ids -/
  byTenant : String → List String

def NewRolePermissionMap : RoleMapSnapshot := ⟨fun _ => none, fun _ => []⟩

/-- One tenant of a full rebuild; a tenant that fails is skipped. -/
def resyncTenant (reg : PermissionRegistry) (built : RoleMapSnapshot) (x : String × RoleTables) : RoleMapSnapshot :=
  match buildTenantRoles x.2 reg built.bits with
  | none => built
  | some (bits, ids) => ⟨bits, fun slug => if slug = x.1 then ids else built.byTenant slug⟩

/-- `Resync`, and `RebuildAll` with its registry. `active` is `none` if the tenants cannot be listed. -/
def Resync (reg : PermissionRegistry) (active : Option (List (String × RoleTables))) : Option RoleMapSnapshot :=
  active.map fun tenants => tenants.foldl (resyncTenant reg) ⟨fun _ => none, fun _ => []⟩

/-- The fresh bits over the old ones of the other tenants. -/
def swapTenant (old : RoleMapSnapshot) (tenantSlug : String) (fresh : RoleBits) (ids : List String) :
    RoleMapSnapshot where
  bits r :=
    match fresh r with
    | some b => some b
    | none => if r ∈ old.byTenant tenantSlug then none else old.bits r
  byTenant slug := if slug = tenantSlug then ids else old.byTenant slug

/-- A tenant's roles resolved into an empty map, which then replaces the tenant's old entries. -/
def RebuildTenant (reg : PermissionRegistry) (old : RoleMapSnapshot) (tenantSlug : String) (t : RoleTables) :
    Option RoleMapSnapshot := do
  let (fresh, ids) ← buildTenantRoles t reg fun _ => none
  some (swapTenant old tenantSlug fresh ids)

/-! ## What the bits mean -/

/-- Every bit is the number of a permission granted to the role. -/
def Means (reg : PermissionRegistry) (data : List RoleTables) (roleID : String) (bits : PermissionBitfield) : Prop :=
  ∀ i, bits.Has i = true → ∃ p, reg.Index p = some i ∧ Granted data p roleID

/-- The same of every entry of a map. -/
def AllMean (reg : PermissionRegistry) (data : List RoleTables) (dest : RoleBits) : Prop :=
  ∀ r bits, dest r = some bits → Means reg data r bits

theorem has_setGrants {reg : PermissionRegistry} {names : List String} {bits : PermissionBitfield} {i : Nat} :
    (setGrants reg bits names).Has i = true ↔
      bits.Has i = true ∨ ∃ name ∈ names, reg.Index name = some i := by
  induction names generalizing bits with
  | nil => simp [setGrants]
  | cons name names ih =>
    unfold setGrants at ih ⊢
    rw [foldl_cons, ih, exists_mem_cons_iff, ← or_assoc]
    refine or_congr_left ?_
    cases hidx : reg.Index name with
    | none => simp
    | some idx =>
      simp only [PermissionBitfield.has_set, Option.some.injEq]
      rw [or_comm, eq_comm (a := idx)]

theorem roleByID_some {roles : List Role} {id : String} {r : Role} (h : roleByID roles id = some r) :
    r ∈ roles ∧ r.id = id := by
  exact ⟨mem_reverse.mp (mem_of_find?_eq_some h), by simpa using find?_some h⟩

section

variable {data : List RoleTables} {t : RoleTables} {roles : List Role} {perms : String → List String}
  {reg : PermissionRegistry}

variable {dest : RoleBits} {bits : PermissionBitfield}

theorem AllMean.insert {id : String} (h : AllMean reg data dest)
    (hbits : Means reg data id bits) : AllMean reg data (dest.insert id bits) := by
  intro r b hb
  unfold RoleBits.insert at hb
  split at hb
  · rename_i hr
    cases hb
    exact hr ▸ hbits
  · exact h r b hb

section

variable (ht : t ∈ data) (hroles : t.allRoles = some roles) (hperms : t.allRolePermissions = some perms)

include ht hroles hperms

/-- The bits of a role's own grants mean them, over bits that mean what the role inherits. -/
theorem means_setGrants {r : Role} (hr : r ∈ roles) (hbits : Means reg data r.id bits) :
    Means reg data r.id (setGrants reg bits (perms r.id)) := by
  intro i hi
  rcases has_setGrants.mp hi with hi | ⟨name, hname, hidx⟩
  · exact hbits i hi
  · exact ⟨name, hidx, .own ht hroles hperms hr hname⟩

/-- **Resolving a role keeps the meaning of every entry**, the new one included. -/
theorem resolve_means {fuel : Nat} {roleID : String} {dest' : RoleBits} {resolving : List String}
    (hdest : AllMean reg data dest)
    (h : resolveRoleBitfield roles perms reg fuel roleID dest resolving = .ok (bits, dest')) :
    Means reg data roleID bits ∧ AllMean reg data dest' := by
  induction fuel generalizing roleID dest dest' resolving bits with
  | zero => cases h
  | succ fuel ih =>
    rw [resolveRoleBitfield] at h
    split at h
    · -- memoised
      rename_i b hb
      cases h
      exact ⟨hdest roleID _ hb, hdest⟩
    split at h
    · cases h
    split at h
    · cases h
    rename_i r hfind
    obtain ⟨hmem, rfl⟩ := roleByID_some hfind
    split at h
    · cases h
      have hnil : Means reg data r.id [] := fun i hi => by cases hi
      have hown := means_setGrants ht hroles hperms hmem hnil
      exact ⟨hown, hdest.insert hown⟩
    rename_i parent hparent
    obtain ⟨⟨parentBits, dest1⟩, hres, h⟩ := bind_eq_ok.mp h
    cases h
    obtain ⟨hpar, hdest1⟩ := ih hdest hres
    have hinherited : Means reg data r.id (PermissionBitfield.or [] parentBits) := by
      intro i hi
      rcases (PermissionBitfield.has_or _ _ _).mp hi with hi | hi
      · cases hi
      · obtain ⟨p, hidx, hp⟩ := hpar i hi
        exact ⟨p, hidx, .inherited ht hroles hmem hparent hp⟩
    have hown := means_setGrants ht hroles hperms hmem hinherited
    exact ⟨hown, hdest1.insert hown⟩

theorem resolveAll_means {pending : List Role} (hdest : AllMean reg data dest) :
    AllMean reg data (resolveAll roles perms reg pending dest) := by
  induction pending generalizing dest with
  | nil => exact hdest
  | cons r rs ih =>
    unfold resolveAll at ih ⊢
    rw [foldl_cons]
    apply ih
    split
    · rename_i hres
      exact (resolve_means ht hroles hperms hdest hres).2
    · exact hdest

end

theorem buildTenantRoles_means (ht : t ∈ data) {dest' : RoleBits} {ids : List String} (hdest : AllMean reg data dest)
    (h : buildTenantRoles t reg dest = some (dest', ids)) : AllMean reg data dest' := by
  unfold buildTenantRoles at h
  cases hroles : t.allRoles with
  | none =>
    rw [hroles] at h
    cases h
  | some roles =>
    rw [hroles] at h
    simp only [Option.bind_eq_bind, Option.bind_some] at h
    split at h
    · cases h
      exact hdest
    cases hperms : t.allRolePermissions with
    | none =>
      rw [hperms] at h
      cases h
    | some perms =>
      rw [hperms] at h
      cases h
      exact resolveAll_means ht hroles hperms hdest

/-- **A full rebuild means what it read.** -/
theorem Resync_means {tenants : List (String × RoleTables)} {m : RoleMapSnapshot}
    (h : Resync reg (some tenants) = some m) : AllMean reg (tenants.map Prod.snd) m.bits := by
  have hfold : ∀ (rest : List (String × RoleTables)) (built : RoleMapSnapshot),
      (∀ x ∈ rest, x ∈ tenants) → AllMean reg (tenants.map Prod.snd) built.bits →
      AllMean reg (tenants.map Prod.snd) (rest.foldl (resyncTenant reg) built).bits := by
    intro rest
    induction rest with
    | nil => exact fun _ _ hbuilt => hbuilt
    | cons x rest ih =>
      intro built hsub hbuilt
      apply ih _ fun y hy => hsub y (mem_cons_of_mem x hy)
      unfold resyncTenant
      split
      · exact hbuilt
      · rename_i hbuild
        exact buildTenantRoles_means (mem_map_of_mem (hsub x (by simp))) hbuilt hbuild
  cases h
  exact hfold tenants _ (fun _ hx => hx) fun r bits hr => by cases hr

end

/-! ## The recursion ends -/

/-- The roles being resolved are different roles of the table, so there are at most as many as the table has. -/
theorem resolve_ne_outOfFuel {roles : List Role} {perms : String → List String} {reg : PermissionRegistry}
    {fuel : Nat} {roleID : String} {dest : RoleBits} {resolving : List String} (hnodup : resolving.Nodup)
    (hsub : resolving ⊆ roles.map Role.id) (hfuel : roles.length < fuel + resolving.length) :
    resolveRoleBitfield roles perms reg fuel roleID dest resolving ≠ .error .outOfFuel := by
  induction fuel generalizing roleID dest resolving with
  | zero =>
    have hle := (subperm_of_subset hnodup hsub).length_le
    rw [length_map] at hle
    omega
  | succ fuel ih =>
    rw [resolveRoleBitfield]
    split
    · simp
    split
    · simp
    rename_i hnew
    split
    · simp
    rename_i r hfind
    obtain ⟨hmem, rfl⟩ := roleByID_some hfind
    split
    · simp
    intro hbind
    rcases bind_eq_error.mp hbind with herr | ⟨x, -, herr⟩
    · refine ih (nodup_cons.mpr ⟨hnew, hnodup⟩) ?_ ?_ herr
      · exact cons_subset.mpr ⟨mem_map_of_mem hmem, hsub⟩
      · rw [length_cons]
        omega
    · cases herr

/-- Every role of the table resolves, runs into a cycle or misses a parent. -/
theorem resolveRoleBitfield_total (roles : List Role) (perms : String → List String) (reg : PermissionRegistry)
    (roleID : String) (dest : RoleBits) :
    resolveRoleBitfield roles perms reg (roles.length + 1) roleID dest [] ≠ .error .outOfFuel :=
  resolve_ne_outOfFuel nodup_nil (nil_subset _) (by simp)

end GoErp.Permission
