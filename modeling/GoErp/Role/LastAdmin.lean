import Mathlib.Data.List.Dedup
import GoErp.Lib.Run

/-!
# `Role.LastAdmin` — a tenant keeps an active administrator

`RevokeAdminRole` (`role/members.go`) and the transitions `suspend` and `remove` (`auth/adminusers/store.go`) begin with
`GuardLastAdminTx`, which locks the row of the admin role and then counts the other administrators in a statement of its
own. That statement reads what is committed by then, and the lock is held to the commit: nobody else removes an
administrator in between. Grants do not expire, and accounts stay active.
-/

namespace GoErp.Role

open Lib

/-- The rows of the tenant that the guard reads. -/
structure Rows where
  /-- the users with a grant of the admin role -/
  userRoles : List String
  activeMembers : List String
  suspendedMembers : List String

/-- The changes that take an administrator away. -/
inductive Change where
  | revoke
  | suspend
  | remove

/-- `activeAdminsQuery` -/
def Rows.activeAdmins (accounts : List String) (r : Rows) : List String :=
  r.userRoles.filter fun u => u ∈ r.activeMembers ∧ u ∈ accounts

/-- `GuardLastAdminTx` lets the transaction go on. -/
def Rows.guard (accounts : List String) (r : Rows) (user : String) : Bool :=
  user ∉ r.activeAdmins accounts || ((r.activeAdmins accounts).filter (· ≠ user)).dedup.length ≠ 0

/-- The rows after a change, and whether it is refused with `ErrMemberStateChanged`. -/
def Rows.change (r : Rows) (user : String) : Change → Option Rows
  | .revoke => some { r with userRoles := r.userRoles.filter (· ≠ user) }
  | .suspend =>
    if user ∉ r.activeMembers then none
    else some ⟨r.userRoles, r.activeMembers.filter (· ≠ user), user :: r.suspendedMembers⟩
  | .remove =>
    if user ∉ r.activeMembers ∧ user ∉ r.suspendedMembers then none
    else some ⟨r.userRoles.filter (· ≠ user), r.activeMembers.filter (· ≠ user), r.suspendedMembers.filter (· ≠ user)⟩

/-- Where a transaction stands. -/
inductive Pc where
  | begun
  | locked
  | guarded
  | ended
  deriving DecidableEq

section

/-- Any number of transactions, each for a user. -/
structure Removals (ι : Type) where
  user : ι → String
  change : ι → Change

/-- The committed rows, the lock on the admin role's row, and each removal's place. -/
structure System (ι : Type) where
  committed : Rows
  /-- the transaction that holds the row of the admin role -/
  lock : Option ι
  pc : ι → Pc

/-- The steps of a transaction. -/
inductive Act where
  | lock
  | guard
  /-- the statements of the change, that nobody sees before the commit -/
  | commit
  | abort

variable {ι : Type} [DecidableEq ι]

/-- A transaction ends, and gives the lock back. -/
def System.ends (s : System ι) (i : ι) (rows : Rows) : System ι :=
  ⟨rows, if s.lock = some i then none else s.lock, Function.update s.pc i .ended⟩

/-- The steps; only the commit changes the rows that others see. -/
def step (accounts : List String) (R : Removals ι) (s : System ι) : ι × Act → Option (System ι)
  -- `FOR UPDATE` waits for the row
  | (i, .lock) =>
    if s.pc i = .begun ∧ s.lock = none then some ⟨s.committed, some i, Function.update s.pc i .locked⟩ else none
  | (i, .guard) =>
    if s.pc i ≠ .locked then none
    else if s.committed.guard accounts (R.user i) then some { s with pc := Function.update s.pc i .guarded }
    else some (s.ends i s.committed)
  | (i, .commit) =>
    if s.pc i ≠ .guarded then none
    else some (s.ends i ((s.committed.change (R.user i) (R.change i)).getD s.committed))
  | (i, .abort) => some (s.ends i s.committed)

/-! ## The invariant -/

variable {accounts : List String} {rows rows' : Rows} {user u : String}

/-- The tenant has an active administrator. -/
def HasAdmin (accounts : List String) (rows : Rows) : Prop := ∃ u, u ∈ rows.activeAdmins accounts

/-- Another administrator than the user. -/
def HasOther (accounts : List String) (rows : Rows) (user : String) : Prop :=
  ∃ u, u ∈ rows.activeAdmins accounts ∧ u ≠ user

/-- An administrator has the role, is an active member and has an account. -/
theorem mem_activeAdmins : u ∈ rows.activeAdmins accounts ↔
    u ∈ rows.userRoles ∧ u ∈ rows.activeMembers ∧ u ∈ accounts := by
  simp [Rows.activeAdmins]

/-- A change leaves the other administrators. -/
theorem hasAdmin_change {change : Change} (h : rows.change user change = some rows')
    (ho : HasOther accounts rows user) :
    HasAdmin accounts rows' := by
  obtain ⟨u, hu, hne⟩ := ho
  obtain ⟨hrole, hactive, haccount⟩ := mem_activeAdmins.mp hu
  have hkeep {l : List String} (hl : u ∈ l) : u ∈ l.filter (· ≠ user) := List.mem_filter.mpr ⟨hl, by simpa using hne⟩
  refine ⟨u, mem_activeAdmins.mpr ?_⟩
  cases change <;> rw [Rows.change] at h
  case revoke =>
    cases h
    exact ⟨hkeep hrole, hactive, haccount⟩
  all_goals
    split at h
    · cases h
    cases h
  case suspend => exact ⟨hrole, hkeep hactive, haccount⟩
  case remove => exact ⟨hkeep hrole, hkeep hactive, haccount⟩

/-- What the guard lets through leaves an administrator. -/
theorem hasOther_of_guard (hadmin : HasAdmin accounts rows) (h : rows.guard accounts user = true) :
    HasOther accounts rows user := by
  rcases Bool.or_eq_true_iff.mp h with hnot | hothers
  · obtain ⟨u, hu⟩ := hadmin
    exact ⟨u, hu, fun heq => of_decide_eq_true hnot (heq ▸ hu)⟩
  · obtain ⟨u, hu⟩ := List.exists_mem_of_length_pos (Nat.pos_of_ne_zero (of_decide_eq_true hothers))
    obtain ⟨hu, hne⟩ := List.mem_filter.mp (List.mem_dedup.mp hu)
    exact ⟨u, hu, of_decide_eq_true hne⟩

variable {R : Removals ι} {s s' : System ι} {i : ι}

/-- There is an administrator, and a transaction past its guard holds the lock and knows of another one. -/
structure Inv (accounts : List String) (R : Removals ι) (s : System ι) : Prop where
  hasAdmin : HasAdmin accounts s.committed
  holds_lock : ∀ i, s.pc i = .locked ∨ s.pc i = .guarded → s.lock = some i
  hasOther : ∀ i, s.pc i = .guarded → HasOther accounts s.committed (R.user i)

theorem other_of_pc_ne {f : ι → Pc} {pc : Pc} {j : ι} (h : Function.update f i pc j ≠ pc) :
    j ≠ i ∧ Function.update f i pc j = f j := by
  have hj : j ≠ i := by
    rintro rfl
    exact h (Function.update_self j pc f)
  exact ⟨hj, Function.update_of_ne hj pc f⟩

/-- The rows change only while the lock is held, when no other transaction relies on them. -/
theorem Inv.ends (hs : Inv accounts R s) (hrows : HasAdmin accounts rows)
    (hheld : rows = s.committed ∨ s.lock = some i) :
    Inv accounts R (s.ends i rows) := by
  have hother (j : ι) (hpc : (s.ends i rows).pc j ≠ .ended) : j ≠ i ∧ (s.ends i rows).pc j = s.pc j :=
    other_of_pc_ne hpc
  refine ⟨hrows, fun j hpc => ?_, fun j hpc => ?_⟩
  · obtain ⟨hj, hsame⟩ := hother j (by rcases hpc with hpc | hpc <;> simp [hpc])
    have hmine := hs.holds_lock j (hsame ▸ hpc)
    show (if s.lock = some i then none else s.lock) = some j
    rw [hmine, if_neg fun h => hj (Option.some.inj h)]
  · obtain ⟨hj, hsame⟩ := hother j (by simp [hpc])
    have hguarded := hsame.symm.trans hpc
    show HasOther accounts rows (R.user j)
    rcases hheld with hsame | hheld
    · rw [hsame]
      exact hs.hasOther j hguarded
    · exact absurd (Option.some.inj ((hs.holds_lock j (.inr hguarded)).symm.trans hheld)) hj

/-- Every step keeps the invariant: what the guard has seen, nobody else can change before the commit. -/
theorem Inv.step {e : ι × Act} (hs : Inv accounts R s) (h : step accounts R s e = some s') : Inv accounts R s' := by
  obtain ⟨i, act⟩ := e
  cases act with
  | lock =>
    rw [Role.step] at h
    split at h <;> cases h
    rename_i hfree
    -- the row was free, so no removal is past its lock
    have hnone {j : ι} (hpc : s.pc j = .locked ∨ s.pc j = .guarded) : False := by
      cases hfree.2.symm.trans (hs.holds_lock j hpc)
    refine ⟨hs.hasAdmin, fun j hpc => ?_, fun j hpc => ?_⟩
    · by_cases hj : j = i
      · rw [hj]
      · simp only [Function.update_of_ne hj] at hpc
        exact (hnone hpc).elim
    · have hother : Function.update s.pc i .locked j ≠ .locked := fun h => by cases h.symm.trans hpc
      obtain ⟨-, hsame⟩ := other_of_pc_ne hother
      exact (hnone (.inr (hsame.symm.trans hpc))).elim
  | guard =>
    rw [Role.step] at h
    split at h
    · cases h
    rename_i hpc
    split at h
    · rename_i hguard
      cases h
      refine ⟨hs.hasAdmin, fun j hj => ?_, fun j hj => ?_⟩
      · by_cases hji : j = i
        · exact hs.holds_lock j (.inl (hji ▸ not_not.mp hpc))
        · simp only [Function.update_of_ne hji] at hj
          exact hs.holds_lock j hj
      · by_cases hji : j = i
        · subst hji
          -- the count was taken under the lock, so it holds until the commit
          exact hasOther_of_guard hs.hasAdmin hguard
        · simp only [Function.update_of_ne hji] at hj
          exact hs.hasOther j hj
    · cases h
      exact hs.ends hs.hasAdmin (.inl rfl)
  | commit =>
    rw [Role.step] at h
    split at h
    · cases h
    rename_i hpc
    cases h
    have hguarded := not_not.mp hpc
    cases hrows : s.committed.change (R.user i) (R.change i) with
    | none => exact hs.ends hs.hasAdmin (.inl rfl)
    | some rows =>
      exact hs.ends (hasAdmin_change hrows (hs.hasOther i hguarded)) (.inr (hs.holds_lock i (.inr hguarded)))
  | abort =>
    cases h
    exact hs.ends hs.hasAdmin (.inl rfl)

/-- **A tenant that has an active administrator keeps one**, whatever removals run and however they interleave. -/
theorem tenant_keeps_admin (R : Removals ι) (events : List (ι × Act)) (hadmin : HasAdmin accounts rows)
    (hrun : Run.run (step accounts R) ⟨rows, none, fun _ => .begun⟩ events = some s) :
    HasAdmin accounts s.committed := by
  have hinv : Inv accounts R ⟨rows, none, fun _ => .begun⟩ := ⟨hadmin, by simp, by simp⟩
  exact (Run.run_keeps (Inv accounts R) (fun _ _ _ hs hstep => hs.step hstep) hinv hrun).hasAdmin

def suspendBoth : Removals Bool := ⟨fun i => if i then "ada" else "bob", fun _ => .suspend⟩

/-- Both administrators are to be suspended, one after the other. -/
def oneAfterOther : List (Bool × Act) :=
  [(true, .lock), (true, .guard), (true, .commit), (false, .lock), (false, .guard)]

/-- The second of two administrators is refused. -/
theorem tenant_keeps_admin_two : ∃ s, Run.run (step ["ada", "bob"] suspendBoth)
      ⟨⟨["ada", "bob"], ["ada", "bob"], []⟩, none, fun _ => .begun⟩
      oneAfterOther = some s ∧
      HasAdmin ["ada", "bob"] s.committed := by
  have hadmin : HasAdmin ["ada", "bob"] ⟨["ada", "bob"], ["ada", "bob"], []⟩ := ⟨"ada", by decide⟩
  exact ⟨_, rfl, tenant_keeps_admin suspendBoth oneAfterOther hadmin rfl⟩

end

end GoErp.Role
