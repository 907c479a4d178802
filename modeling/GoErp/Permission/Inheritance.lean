import GoErp.Lib.Slices
import GoErp.Permission.RoleMap

/-!
# `Permission.Inheritance` — what a role inherits, and that bitfields are not shared

A role gets an entry exactly if its parents lead to a role without a parent, all of them in the table; its bits are then
those of its own grants and of theirs (`resolve_right`, `resolve_complete`). The bitfields are slices, and `Or`
and `Set` write in place: the second half resolves the roles over a heap and shows that every entry has an array of its
own, which nothing writes once the entry is made.
-/

namespace GoErp.Permission

open Lib List

/-! ## Chains of parents -/

section

variable (roles : List Role) (perms : String → List String)

/-- The parents of the role lead, in `n` steps and through roles of the table, to a role without a parent. -/
inductive Rooted : Nat → String → Prop where
  | root {id : String} {r : Role} (hr : roleByID roles id = some r) (hparent : r.parentID = none) : Rooted 0 id
  | child {id : String} {r : Role} {parent : String} {n : Nat} (hr : roleByID roles id = some r)
      (hparent : r.parentID = some parent) (h : Rooted n parent) : Rooted (n + 1) id

/-- The parent chain of the role reaches a root. -/
def ReachesRoot (id : String) : Prop := ∃ n, Rooted roles n id

/-- The permission is granted to the role or to one of its ancestors. -/
inductive Inherits (p : String) : String → Prop where
  | own {id : String} (hp : p ∈ perms id) : Inherits p id
  | inherited {id : String} {r : Role} {parent : String} (hr : roleByID roles id = some r)
      (hparent : r.parentID = some parent) (h : Inherits p parent) : Inherits p id

/-- The id is that of a role or of a role's parent. -/
def Named (id : String) : Prop := ∃ r ∈ roles, r.id = id ∨ r.parentID = some id

end

variable {roles : List Role} {perms : String → List String} {reg : PermissionRegistry} {id : String}

/-- A role has one parent, so its chain has one length. -/
theorem Rooted.unique {n m : Nat} (h : Rooted roles n id) (h' : Rooted roles m id) : n = m := by
  induction h generalizing m with
  | root hr hparent =>
    cases h' with
    | root => rfl
    | child hr' hparent' =>
      cases hr.symm.trans hr'
      rw [hparent] at hparent'
      cases hparent'
  | child hr hparent _ ih =>
    cases h' with
    | root hr' hparent' =>
      cases hr.symm.trans hr'
      rw [hparent] at hparent'
      cases hparent'
    | child hr' hparent' h' =>
      cases hr.symm.trans hr'
      cases hparent.symm.trans hparent'
      exact congrArg (· + 1) (ih h')

theorem Named.of_parent {r : Role} {parent : String} (hr : roleByID roles id = some r)
    (hparent : r.parentID = some parent) : Named roles parent :=
  ⟨r, (roleByID_some hr).1, .inr hparent⟩

/-! ## The bits of a role -/

variable (roles perms reg) in
/-- The set bits are the numbers of the permissions that the role has or inherits. -/
def Exact (id : String) (bits : PermissionBitfield) : Prop :=
  ∀ i, bits.Has i = true ↔ ∃ p, reg.Index p = some i ∧ Inherits roles perms p id

variable (roles perms reg) in
/-- Every entry that was not there at the start is right. -/
def Right (start dest : RoleBits) : Prop :=
  ∀ id bits, dest id = some bits → start id = some bits ∨ ReachesRoot roles id ∧ Exact roles perms reg id bits

theorem exact_root {r : Role} (hr : roleByID roles id = some r) (hparent : r.parentID = none) :
    Exact roles perms reg id (setGrants reg [] (perms id)) := by
  intro i
  rw [has_setGrants]
  constructor
  · rintro (hnil | ⟨p, hp, hidx⟩)
    · cases hnil
    · exact ⟨p, hidx, .own hp⟩
  · rintro ⟨p, hidx, hp⟩
    cases hp with
    | own hp => exact .inr ⟨p, hp, hidx⟩
    | inherited hr' hparent' =>
      cases hr.symm.trans hr'
      rw [hparent] at hparent'
      cases hparent'

theorem exact_child {r : Role} {parent : String} {parentBits : PermissionBitfield} (hr : roleByID roles id = some r)
    (hparent : r.parentID = some parent) (hbits : Exact roles perms reg parent parentBits) :
    Exact roles perms reg id (setGrants reg (PermissionBitfield.or [] parentBits) (perms id)) := by
  intro i
  have hnil : PermissionBitfield.Has [] i = false := rfl
  rw [has_setGrants, PermissionBitfield.has_or, hnil, hbits i]
  constructor
  · rintro ((hfalse | ⟨p, hidx, hp⟩) | ⟨p, hp, hidx⟩)
    · cases hfalse
    · exact ⟨p, hidx, .inherited hr hparent hp⟩
    · exact ⟨p, hidx, .own hp⟩
  · rintro ⟨p, hidx, hp⟩
    cases hp with
    | own hp => exact .inr ⟨p, hp, hidx⟩
    | inherited hr' hparent' hp =>
      cases hr.symm.trans hr'
      cases hparent.symm.trans hparent'
      exact .inl (.inr ⟨p, hidx, hp⟩)

/-! ## Resolving -/

variable {start dest dest' : RoleBits} {bits : PermissionBitfield} {fuel : Nat} {resolving : List String}

theorem RoleBits.insert_self (dest : RoleBits) (id : String) (bits : PermissionBitfield) :
    dest.insert id bits id = some bits := if_pos rfl

theorem Right.insert (h : Right roles perms reg start dest) (hroot : ReachesRoot roles id)
    (hbits : Exact roles perms reg id bits) : Right roles perms reg start (dest.insert id bits) := by
  intro x b hb
  unfold RoleBits.insert at hb
  split at hb
  · rename_i hx
    cases hb
    exact .inr (hx ▸ ⟨hroot, hbits⟩)
  · exact h x b hb

/-- A new entry leaves the others as they are. -/
theorem insert_keeps (hnew : dest id = none) (hold : ∀ x b, dest x = some b → dest' x = some b) :
    ∀ x b, dest x = some b → dest'.insert id bits x = some b := by
  intro x b hx
  have hne : x ≠ id := by
    rintro rfl
    rw [hnew] at hx
    cases hx
  exact (if_neg hne).trans (hold x b hx)

/-- What resolving a role returns is right, it is the role's entry, and earlier entries stay. -/
theorem resolve_right (hstart : ∀ id, Named roles id → start id = none) (hid : Named roles id)
    (hdest : Right roles perms reg start dest)
    (h : resolveRoleBitfield roles perms reg fuel id dest resolving = .ok (bits, dest')) :
    ReachesRoot roles id ∧ Exact roles perms reg id bits ∧ Right roles perms reg start dest' ∧
      dest' id = some bits ∧ ∀ x b, dest x = some b → dest' x = some b := by
  induction fuel generalizing id dest dest' resolving bits with
  | zero => cases h
  | succ fuel ih =>
    rw [resolveRoleBitfield] at h
    split at h
    · -- memoised: an entry of this table, since it was not there at the start
      rename_i b hb
      cases h
      obtain ⟨hroot, hbits⟩ := (hdest id _ hb).resolve_left (by simp [hstart id hid])
      exact ⟨hroot, hbits, hdest, hb, fun _ _ hx => hx⟩
    rename_i hnew
    split at h
    · cases h
    split at h
    · cases h
    rename_i r hr
    split at h
    · rename_i hparent
      cases h
      have hroot : ReachesRoot roles id := ⟨0, .root hr hparent⟩
      have hbits : Exact roles perms reg id _ := exact_root hr hparent
      exact ⟨hroot, hbits, hdest.insert hroot hbits, RoleBits.insert_self _ _ _, insert_keeps hnew fun _ _ hx => hx⟩
    · rename_i parent hparent
      obtain ⟨⟨parentBits, dest₁⟩, hres, h⟩ := bind_eq_ok.mp h
      cases h
      -- the parent first: its bits are exact and the entries so far stay
      obtain ⟨⟨n, hn⟩, hpbits, hdest₁, -, hold⟩ := ih (.of_parent hr hparent) hdest hres
      have hroot : ReachesRoot roles id := ⟨n + 1, .child hr hparent hn⟩
      have hbits := exact_child hr hparent hpbits
      exact ⟨hroot, hbits, hdest₁.insert hroot hbits, RoleBits.insert_self _ _ _, insert_keeps hnew hold⟩

/-- A role whose chain reaches a root resolves: the roles being resolved are below it, so it is none of them. -/
theorem resolve_complete {n : Nat} (hn : Rooted roles n id) (hbelow : ∀ x ∈ resolving, ∀ m, Rooted roles m x → n < m)
    {e : ResolveError} (h : resolveRoleBitfield roles perms reg fuel id dest resolving = .error e) :
    e = .outOfFuel := by
  induction fuel generalizing id dest resolving n with
  | zero =>
    cases h
    rfl
  | succ fuel ih =>
    rw [resolveRoleBitfield] at h
    split at h
    · cases h
    split at h
    · rename_i hmem
      exact absurd (hbelow id hmem n hn) (Nat.lt_irrefl n)
    cases hn with
    | root hr hparent =>
      simp only [hr, hparent] at h
      cases h
    | child hr hparent hparents =>
      simp only [hr, hparent] at h
      rcases bind_eq_error.mp h with herr | ⟨x, -, herr⟩
      · refine ih hparents ?_ herr
        intro x hx m hm
        rcases mem_cons.mp hx with rfl | hx
        · rw [← Rooted.unique (.child hr hparent hparents) hm]
          exact Nat.lt_succ_self _
        · exact Nat.lt_of_succ_lt (hbelow x hx m hm)
      · cases herr

variable (perms reg) in
theorem resolve_succeeds (hid : ReachesRoot roles id) (dest : RoleBits) :
    ∃ x, resolveRoleBitfield roles perms reg (roles.length + 1) id dest [] = .ok x := by
  obtain ⟨n, hn⟩ := hid
  cases hres : resolveRoleBitfield roles perms reg (roles.length + 1) id dest [] with
  | ok x => exact ⟨x, rfl⟩
  | error e =>
    have hfuel := resolve_complete hn (fun x hx => absurd hx not_mem_nil) hres
    exact absurd (hfuel ▸ hres) (resolveRoleBitfield_total roles perms reg id dest)

/-- The loop: entries are right and stay, and the roles it has passed have theirs. -/
theorem resolveAll_right {pending : List Role} (hstart : ∀ id, Named roles id → start id = none)
    (hsub : ∀ r ∈ pending, r ∈ roles) (hdest : Right roles perms reg start dest) :
    Right roles perms reg start (resolveAll roles perms reg pending dest) ∧
      (∀ x b, dest x = some b → resolveAll roles perms reg pending dest x = some b) ∧
      ∀ r ∈ pending, ReachesRoot roles r.id → ∃ b, resolveAll roles perms reg pending dest r.id = some b := by
  induction pending generalizing dest with
  | nil => exact ⟨hdest, fun _ _ hx => hx, fun r hr => absurd hr not_mem_nil⟩
  | cons r rs ih =>
    obtain ⟨hr, hrs⟩ := forall_mem_cons.mp hsub
    unfold resolveAll at ih ⊢
    rw [foldl_cons]
    split
    · rename_i hres
      obtain ⟨-, -, hdest₁, hself, hold⟩ := resolve_right hstart ⟨r, hr, .inl rfl⟩ hdest hres
      obtain ⟨hright, hkept, hfound⟩ := ih hrs hdest₁
      have hmine : ∃ b, resolveAll roles perms reg rs _ r.id = some b := ⟨_, hkept _ _ hself⟩
      exact ⟨hright, fun x b hx => hkept x b (hold x b hx), forall_mem_cons.mpr ⟨fun _ => hmine, hfound⟩⟩
    · rename_i hres
      obtain ⟨hright, hkept, hfound⟩ := ih hrs hdest
      refine ⟨hright, hkept, forall_mem_cons.mpr ⟨fun hroot => ?_, hfound⟩⟩
      obtain ⟨x, hx⟩ := resolve_succeeds perms reg hroot dest
      rw [hres] at hx
      cases hx

/-! ## Slices -/

/-- The slice and the heap after `make` and `copy`, if the slice has to grow to `n` words. -/
def growTo (h : Heap (BitVec 64)) (b : Slice) (n : Nat) : Heap (BitVec 64) × Slice :=
  if (h.read b).length < n then h.alloc (PermissionBitfield.grow (h.read b) n) else (h, b)

/-- `Set`, on a slice. -/
def setSlice (h : Heap (BitVec 64)) (b : Slice) (idx : Nat) : Heap (BitVec 64) × Slice :=
  let (h, b) := growTo h b (idx / bitsPerWord + 1)
  (h.write (fun bits => bits.modify (idx / bitsPerWord) (· ||| bitMask idx)) b, b)

/-- `Or`, on slices. -/
def orSlice (h : Heap (BitVec 64)) (b other : Slice) : Heap (BitVec 64) × Slice :=
  let (h, b) := growTo h b (h.read other).length
  (h.write (fun bits => bits.mapIdx fun w x => x ||| PermissionBitfield.word (h.read other) w) b, b)

/-- The loop over a role's grants. -/
def setGrantsSlice (reg : PermissionRegistry) (x : Heap (BitVec 64) × Slice) (names : List String) :
    Heap (BitVec 64) × Slice :=
  names.foldl (fun x name => match reg.Index name with
    | some idx => setSlice x.1 x.2 idx
    | none => x) x

/-- The heap, and the map from role ids to slices of it. -/
structure Memory where
  heap : Heap (BitVec 64)
  dest : String → Option Slice

/-- `dest[roleID] = bits` -/
def Memory.insert (m : Memory) (id : String) (x : Heap (BitVec 64) × Slice) : Memory :=
  ⟨x.1, fun r => if r = id then some x.2 else m.dest r⟩

@[simp] theorem Memory.heap_insert (m : Memory) (id : String) (x : Heap (BitVec 64) × Slice) :
    (m.insert id x).heap = x.1 := rfl

section

variable (roles : List Role) (rolePerms : String → List String) (reg : PermissionRegistry)

/-- `resolveRoleBitfield` with its slices. -/
def resolveRoleSlice : Nat → String → Memory → List String → Except ResolveError (Slice × Memory)
  | 0, _, _, _ => .error .outOfFuel
  | fuel + 1, roleID, m, resolving =>
    match m.dest roleID with
    | some bits => .ok (bits, m)
    | none =>
      if roleID ∈ resolving then .error (.cycle roleID)
      else match roleByID roles roleID with
        | none => .error (.notFound roleID)
        | some r =>
          match r.parentID with
          | none =>
            let x := setGrantsSlice reg (m.heap, none) (rolePerms roleID)
            .ok (x.2, m.insert roleID x)
          | some parent => do
            let (parentBits, m) ← resolveRoleSlice fuel parent m (roleID :: resolving)
            let x := setGrantsSlice reg (orSlice m.heap none parentBits) (rolePerms roleID)
            .ok (x.2, m.insert roleID x)

/-- `resolveAll` with its slices. -/
def resolveAllSlices (pending : List Role) (m : Memory) : Memory :=
  pending.foldl (fun m r =>
    match resolveRoleSlice roles rolePerms reg (roles.length + 1) r.id m [] with
    | .ok (_, m) => m
    | .error _ => m) m

end

/-- `buildTenantRoles` with its slices. -/
def buildTenantSlices (t : RoleTables) (reg : PermissionRegistry) (m : Memory) : Option (Memory × List String) := do
  let allRoles ← t.allRoles
  if allRoles = [] then
    some (m, [])
  else
    let rolePerms ← t.allRolePermissions
    some (resolveAllSlices allRoles rolePerms reg allRoles m, allRoles.map Role.id)

/-! ### A bitfield being built -/

variable {h₀ h : Heap (BitVec 64)} {s other : Slice}

/-- The slice holds the bits in an array that `h₀` does not have, and no array of `h₀` has been written. -/
structure Building (h₀ : Heap (BitVec 64)) (x : Heap (BitVec 64) × Slice) (bits : PermissionBitfield) : Prop where
  isPrivate : Heap.Private h₀ x.1 x.2
  live : x.1.Live x.2
  read : x.1.read x.2 = bits

theorem Building.nil (h : Heap (BitVec 64)) : Building h (h, none) [] := ⟨.nil h, nofun, rfl⟩

theorem grow_of_le {n : Nat} (hn : n ≤ bits.length) : bits.grow n = bits := by
  rw [PermissionBitfield.grow, Nat.sub_eq_zero_of_le hn, replicate_zero, append_nil]

theorem Building.growTo (hb : Building h₀ (h, s) bits) (n : Nat) :
    Building h₀ (Permission.growTo h s n) (bits.grow n) := by
  obtain ⟨hp, hl, rfl⟩ := hb
  unfold Permission.growTo
  split
  · exact ⟨hp.alloc _, Heap.live_alloc _ _, Heap.read_alloc _ _⟩
  · exact ⟨hp, hl, (grow_of_le (Nat.le_of_not_lt ‹_›)).symm⟩

/-- Words changed in place. -/
theorem Building.write {f : List (BitVec 64) → List (BitVec 64)} (hb : Building h₀ (h, s) bits) (hf : f [] = []) :
    Building h₀ (h.write f s, s) (f bits) :=
  ⟨hb.isPrivate.write f, hb.live.write f s, (Heap.read_write hb.live hf).trans (congrArg f hb.read)⟩

theorem Building.setSlice (hb : Building h₀ (h, s) bits) (idx : Nat) :
    Building h₀ (Permission.setSlice h s idx) (bits.set idx) :=
  (hb.growTo (idx / bitsPerWord + 1)).write (f := fun bits => bits.modify _ _) (by simp)

theorem Building.orSlice (hb : Building h₀ (h, s) bits) (hother : h₀.Live other) :
    Building h₀ (Permission.orSlice h s other) (bits.or (h₀.read other)) := by
  have hgrown := hb.growTo (h.read other).length
  -- `other` is an array of `h₀`, which growing and writing leave alone
  have hread := Heap.read_of_prefix hb.isPrivate.1 hother
  have hread' := Heap.read_of_prefix hgrown.isPrivate.1 hother
  have hw := hgrown.write (f := fun bits => bits.mapIdx fun w x => x ||| PermissionBitfield.word (h₀.read other) w) rfl
  unfold Permission.orSlice PermissionBitfield.or
  rw [hread] at hw hread' ⊢
  simp only [hread']
  exact hw

variable (reg) in
theorem Building.setGrantsSlice {x : Heap (BitVec 64) × Slice} (hb : Building h₀ x bits) (names : List String) :
    Building h₀ (Permission.setGrantsSlice reg x names) (setGrants reg bits names) := by
  induction names generalizing x bits with
  | nil => exact hb
  | cons name names ih =>
    unfold Permission.setGrantsSlice setGrants at ih ⊢
    rw [foldl_cons, foldl_cons]
    cases reg.Index name with
    | none => exact ih hb
    | some idx => exact ih (hb.setSlice idx)

/-! ### Memories -/

variable {m m₁ m' : Memory}

/-- The bits of the entries. -/
def Memory.view (m : Memory) : RoleBits := fun id => (m.dest id).map m.heap.read

/-- The entries refer to arrays of the heap, each to its own. -/
structure Memory.Sound (m : Memory) : Prop where
  live : ∀ id s, m.dest id = some s → m.heap.Live s
  unshared : ∀ id id' a, m.dest id = some (some a) → m.dest id' = some (some a) → id = id'

/-- `m'` has the entries of `m` and more, and no array of `m` has been written. -/
structure Memory.Later (m m' : Memory) : Prop where
  sound : m'.Sound
  heap : m.heap <+: m'.heap
  dest : ∀ id s, m.dest id = some s → m'.dest id = some s

theorem Memory.Later.refl (hm : m.Sound) : m.Later m := ⟨hm, prefix_rfl, fun _ _ hs => hs⟩

theorem Memory.Later.trans (h : m.Later m₁) (h' : m₁.Later m') : m.Later m' :=
  ⟨h'.sound, h.heap.trans h'.heap, fun id s hs => h'.dest id s (h.dest id s hs)⟩

/-- An entry reads the same later on. -/
theorem Memory.Later.read (hm : m.Sound) (h : m.Later m') (hs : m.dest id = some s) :
    m'.heap.read s = m.heap.read s :=
  Heap.read_of_prefix h.heap (hm.live id s hs)

variable {x : Heap (BitVec 64) × Slice}

/-- A new entry with an array of its own. -/
theorem Memory.Later.insert (h : m.Later m₁) (hnew : m.dest id = none) (hx : Building m₁.heap x bits) :
    m.Later (m₁.insert id x) := by
  refine ⟨⟨?_, ?_⟩, h.heap.trans hx.isPrivate.1, ?_⟩
  · intro r s hs
    unfold Memory.insert at hs
    dsimp only at hs
    split at hs
    · cases hs
      exact hx.live
    · exact (h.sound.live r s hs).mono hx.isPrivate.1
  · -- the arrays of the other entries are in the heap that `x` extends
    have hapart (r : String) (a : Nat) (hr : m₁.dest r = some (some a)) : x.2 ≠ some a := fun ha =>
      Nat.not_lt_of_ge (hx.isPrivate.2 a ha) (h.sound.live r _ hr a rfl)
    intro r r' a hr hr'
    unfold Memory.insert at hr hr'
    dsimp only at hr hr'
    split at hr <;> split at hr'
    · exact ‹r = id›.trans ‹r' = id›.symm
    · exact absurd (Option.some.inj hr) (hapart r' a hr')
    · exact absurd (Option.some.inj hr') (hapart r a hr)
    · exact h.sound.unshared r r' a hr hr'
  · intro r s hs
    have hne : r ≠ id := by
      rintro rfl
      rw [hnew] at hs
      cases hs
    exact (if_neg hne).trans (h.dest r s hs)

theorem Memory.view_insert (hm : m.Sound) (hx : Building m.heap x bits) :
    (m.insert id x).view = m.view.insert id bits := by
  funext r
  unfold Memory.view Memory.insert RoleBits.insert
  dsimp only
  split
  · exact congrArg some hx.read
  · cases hs : m.dest r with
    | none => rfl
    | some s => exact congrArg some (Heap.read_of_prefix hx.isPrivate.1 (hm.live r s hs))

/-- **Resolving writes no array of an earlier entry.** -/
theorem resolveRoleSlice_later (hm : m.Sound)
    (h : resolveRoleSlice roles perms reg fuel id m resolving = .ok (s, m')) : m.Later m' ∧ m'.heap.Live s := by
  induction fuel generalizing id m m' resolving s with
  | zero => cases h
  | succ fuel ih =>
    rw [resolveRoleSlice] at h
    split at h
    · rename_i hs
      cases h
      exact ⟨.refl hm, hm.live id _ hs⟩
    rename_i hnew
    split at h
    · cases h
    split at h
    · cases h
    split at h
    · cases h
      have hx := (Building.nil m.heap).setGrantsSlice reg (perms id)
      exact ⟨(Memory.Later.refl hm).insert hnew hx, hx.live⟩
    · obtain ⟨⟨parentBits, m₁⟩, hres, h⟩ := bind_eq_ok.mp h
      cases h
      obtain ⟨hlater, hlive⟩ := ih hm hres
      have hx := ((Building.nil m₁.heap).orSlice hlive).setGrantsSlice reg (perms id)
      exact ⟨hlater.insert hnew hx, hx.live⟩

/-- **The slices hold what the values say**: resolving with slices is resolving with values. -/
theorem resolveRoleSlice_refines (hm : m.Sound) :
    (resolveRoleSlice roles perms reg fuel id m resolving).map (fun x => (x.2.heap.read x.1, x.2.view)) =
      resolveRoleBitfield roles perms reg fuel id m.view resolving := by
  induction fuel generalizing id m resolving with
  | zero => rfl
  | succ fuel ih =>
    rw [resolveRoleSlice, resolveRoleBitfield]
    cases hs : m.dest id with
    | some s =>
      simp only [Memory.view, hs, Option.map_some]
      rfl
    | none =>
      simp only [show m.view id = none by simp [Memory.view, hs]]
      split
      · rfl
      cases hr : roleByID roles id with
      | none => rfl
      | some r =>
        cases hparent : r.parentID with
        | none =>
          have hx := (Building.nil m.heap).setGrantsSlice reg (perms id)
          simp only [hparent, Except.map, Memory.heap_insert, hx.read, Memory.view_insert hm hx]
        | some parent =>
          simp only [hparent]
          rw [← ih hm]
          cases hres : resolveRoleSlice roles perms reg fuel parent m (id :: resolving) with
          | error e => rfl
          | ok y =>
            obtain ⟨hlater, hlive⟩ := resolveRoleSlice_later hm hres
            have hx := ((Building.nil y.2.heap).orSlice hlive).setGrantsSlice reg (perms id)
            simp only [bind, Except.bind, Except.map, Memory.heap_insert, hx.read, Memory.view_insert hlater.sound hx]

theorem resolveAllSlices_cons (r : Role) (rs : List Role) (m : Memory) :
    resolveAllSlices roles perms reg (r :: rs) m = resolveAllSlices roles perms reg rs
      (resolveAllSlices roles perms reg [r] m) := rfl

variable (roles perms reg) in
theorem resolveAllSlices_one (hm : m.Sound) (r : Role) :
    m.Later (resolveAllSlices roles perms reg [r] m) ∧
      (resolveAllSlices roles perms reg [r] m).view = resolveAll roles perms reg [r] m.view := by
  simp only [resolveAllSlices, resolveAll, foldl_cons, foldl_nil, ← resolveRoleSlice_refines hm]
  cases hres : resolveRoleSlice roles perms reg (roles.length + 1) r.id m [] with
  | error e => exact ⟨.refl hm, rfl⟩
  | ok x => exact ⟨(resolveRoleSlice_later hm hres).1, rfl⟩

variable (roles perms reg) in
/-- The loop over the roles. -/
theorem resolveAllSlices_later (hm : m.Sound) (pending : List Role) :
    m.Later (resolveAllSlices roles perms reg pending m) ∧
      (resolveAllSlices roles perms reg pending m).view = resolveAll roles perms reg pending m.view := by
  induction pending generalizing m with
  | nil => exact ⟨.refl hm, rfl⟩
  | cons r rs ih =>
    obtain ⟨hone, hbits⟩ := resolveAllSlices_one roles perms reg hm r
    obtain ⟨hlater, hrest⟩ := ih hone.sound
    rw [resolveAllSlices_cons]
    exact ⟨hone.trans hlater, hrest.trans (congrArg _ hbits)⟩

theorem resolveAllSlices_append (done pending : List Role) (m : Memory) :
    resolveAllSlices roles perms reg (done ++ pending) m = resolveAllSlices roles perms reg pending
      (resolveAllSlices roles perms reg done m) := foldl_append

theorem buildTenantSlices_eq (roles : List Role) (perms : String → List String) (m : Memory) :
    buildTenantSlices ⟨some roles, some perms⟩ reg m =
      some (resolveAllSlices roles perms reg roles m, roles.map Role.id) := by
  cases roles with
  | nil => rfl
  | cons r rs => rfl

/-- **Role inheritance.** The table is added to entries of other tables, none of which it names. A role of the table has
an entry exactly if its parents lead to a root; its bits are those of the registered permissions granted to it or to
an ancestor; every entry reads as the value it was made with, at any later point of the loop as at the first; and no
two roles share an array. -/
theorem buildTenantSlices_inheritance (reg : PermissionRegistry) {ids : List String} (hm : m.Sound)
    (hfresh : ∀ id, Named roles id → m.dest id = none)
    (h : buildTenantSlices ⟨some roles, some perms⟩ reg m = some (m', ids)) :
    (∀ r ∈ roles, (m'.dest r.id).isSome ↔ ReachesRoot roles r.id) ∧
    (∀ r ∈ roles, ∀ s, m'.dest r.id = some s → ∀ i, PermissionBitfield.Has (m'.heap.read s) i = true ↔
      ∃ p, reg.Index p = some i ∧ Inherits roles perms p r.id) ∧
    (∀ id, (m'.dest id).map m'.heap.read = resolveAll roles perms reg roles m.view id) ∧
    (∀ done pending, roles = done ++ pending → ∀ id s, (resolveAllSlices roles perms reg done m).dest id = some s →
      m'.dest id = some s ∧ m'.heap.read s = (resolveAllSlices roles perms reg done m).heap.read s) ∧
    ∀ id id' a, m'.dest id = some (some a) → m'.dest id' = some (some a) → id = id' := by
  rw [buildTenantSlices_eq] at h
  cases h
  obtain ⟨hlater, hbits⟩ := resolveAllSlices_later roles perms reg hm roles
  have hstart (id : String) (hid : Named roles id) : m.view id = none := by simp [Memory.view, hfresh id hid]
  have hbegin : Right roles perms reg m.view m.view := fun _ _ hb => .inl hb
  obtain ⟨hright, -, hfound⟩ := resolveAll_right hstart (fun _ hr => hr) hbegin
  rw [← hbits] at hright hfound
  -- an entry for a role of the table was made by this run: `m` had none
  have hentry (r : Role) (hr : r ∈ roles) (s : Slice)
      (hs : (resolveAllSlices roles perms reg roles m).dest r.id = some s) :
      ReachesRoot roles r.id ∧
        Exact roles perms reg r.id ((resolveAllSlices roles perms reg roles m).heap.read s) := by
    refine (hright r.id _ (by simp [Memory.view, hs])).resolve_left ?_
    rw [hstart r.id ⟨r, hr, .inl rfl⟩]
    nofun
  refine ⟨fun r hr => ⟨fun hsome => ?_, fun hroot => ?_⟩, fun r hr s hs => (hentry r hr s hs).2, congrFun hbits, ?_,
    hlater.sound.unshared⟩
  · obtain ⟨s, hs⟩ := Option.isSome_iff_exists.mp hsome
    exact (hentry r hr s hs).1
  · obtain ⟨b, hb⟩ := hfound r hr hroot
    obtain ⟨s, hs, -⟩ := Option.map_eq_some_iff.mp hb
    exact hs ▸ rfl
  · intro done pending hsplit id s hs
    -- the loop over `roles` is the loop over `done` and then over `pending`
    have hdone := (resolveAllSlices_later roles perms reg hm done).1
    have hrest := (resolveAllSlices_later roles perms reg hdone.sound pending).1
    rw [← resolveAllSlices_append, ← hsplit] at hrest
    exact ⟨hrest.dest id s hs, hrest.read hdone.sound hs⟩

/-- A manager with a clerk below, a role that is its own parent, and one whose parent is gone. -/
def officeRoles : List Role :=
  [⟨"clerk", some "manager"⟩, ⟨"manager", none⟩, ⟨"loop", some "loop"⟩, ⟨"orphan", some "gone"⟩]

def officeGrants (id : String) : List String :=
  if id = "manager" then ["hr.read", "hr.sign"] else if id = "clerk" then ["hr.write"] else []

/-- The clerk has the manager's registered permission and its own, in a second array. -/
theorem buildTenantSlices_inheritance_office :
    let reg := PermissionRegistry.new.Register ["hr.read", "hr.write"]
    let m : Memory := ⟨[], fun _ => none⟩
    let m' := resolveAllSlices officeRoles officeGrants reg officeRoles m
    m'.heap = [[1], [3]] ∧ m'.dest "manager" = some (some 0) ∧ m'.dest "clerk" = some (some 1) ∧
      m'.dest "loop" = none ∧ m'.dest "orphan" = none ∧ ReachesRoot officeRoles "clerk" ∧
      ¬ ReachesRoot officeRoles "loop" := by
  intro reg m m'
  have hm : m.Sound := ⟨nofun, nofun⟩
  obtain ⟨hentry, -⟩ := buildTenantSlices_inheritance reg hm (fun _ _ => rfl)
    (buildTenantSlices_eq officeRoles officeGrants m)
  refine ⟨by decide +kernel, by decide +kernel, by decide +kernel, by decide +kernel, by decide +kernel, ?_, ?_⟩
  · exact (hentry ⟨"clerk", some "manager"⟩ (by decide)).mp (by decide +kernel)
  · intro hloop
    have := (hentry ⟨"loop", some "loop"⟩ (by decide)).mpr hloop
    revert this
    decide +kernel

end GoErp.Permission
