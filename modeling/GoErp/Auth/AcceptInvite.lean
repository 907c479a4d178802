import Mathlib.Logic.Function.Basic
import GoErp.Lib.Run

/-!
# `Auth.AcceptInvite` — accepting an invitation against `Resend` and `Revoke`

A request of `Handlers.Accept` (`auth/acceptinvite/handler.go`) looks its token up and hashes the password; then
`Accept` (`invite/invite.go`) locks the row by its id and checks again that it is live, but not that it still has the
token. `Resend` and `Revoke` are one `UPDATE` each, which waits for the lock. A token stands for its hash, and each is
new.

A resent invitation kills the old link but for the requests that have looked it up before (`old_links_dead_iff`).
-/

namespace GoErp.Auth.AcceptInvite

open Lib List

/-- A row of `tenant_invitations`. -/
structure Invitation where
  tokenHash : String
  expiresAt : Nat
  acceptedAt : Option Nat
  revokedAt : Option Nat

/-- `accepted_at IS NULL AND revoked_at IS NULL` -/
def Invitation.pending (inv : Invitation) : Prop := inv.acceptedAt = none ∧ inv.revokedAt = none
  deriving Decidable

/-- Pending and not expired. -/
def Invitation.live (inv : Invitation) (now : Nat) : Prop := now < inv.expiresAt ∧ inv.pending
  deriving Decidable

/-- Where a request stands: before its lookup, before the lock, before the commit, or at one of its ends. -/
inductive Pc where
  | begun
  | found
  | locked
  | accepted
  | ended
  deriving DecidableEq

/-- The row, the requests, and the tokens that calls have taken back. -/
structure System (ι : Type) where
  row : Invitation
  now : Nat
  /-- the request that holds the row -/
  lock : Option ι
  pc : ι → Pc
  /-- the tokens taken back by a call that has not returned -/
  returning : List String
  /-- those taken back by a call that has returned -/
  killed : List String

/-- The steps of the requests and of the administrators' calls. -/
inductive Event (ι : Type) where
  /-- `GetLiveByToken` -/
  | lookup (i : ι)
  /-- the `SELECT … FOR UPDATE` of `Accept` -/
  | lock (i : ι)
  | commit (i : ι)
  /-- any error of the request, which rolls its transaction back -/
  | abort (i : ι)
  /-- the `UPDATE` of `Resend`, with the token it has generated -/
  | resend (fresh : String)
  | revoke
  /-- the return of the call that took the token back -/
  | returns (token : String)
  | tick

variable {ι : Type}

section

variable [DecidableEq ι]

def System.goes (s : System ι) (i : ι) (pc : Pc) : System ι := { s with pc := Function.update s.pc i pc }

def week : Nat := 7 * 24 * 3600

/-- One step, where request `i` presents `token i`. -/
def step (token : ι → String) (s : System ι) : Event ι → Option (System ι)
  | .lookup i =>
    if s.pc i ≠ .begun then none
    else if s.row.live s.now ∧ s.row.tokenHash = token i then some (s.goes i .found)
    else some (s.goes i .ended)
  | .lock i =>
    if s.pc i ≠ .found ∨ s.lock ≠ none then none
    else if s.row.live s.now then some { s.goes i .locked with lock := some i }
    else some (s.goes i .ended)
  | .commit i =>
    if s.pc i ≠ .locked then none
    else some { s.goes i .accepted with row := { s.row with acceptedAt := some s.now }, lock := none }
  | .abort i =>
    if s.pc i = .accepted then none
    else some { s.goes i .ended with lock := if s.lock = some i then none else s.lock }
  | .resend fresh =>
    if s.lock ≠ none ∨ fresh ∈ s.row.tokenHash :: s.returning ++ s.killed then none
    -- otherwise no row, and `ErrInvitationNotLive`
    else if s.row.pending then
      some { s with
        row := { s.row with tokenHash := fresh, expiresAt := s.now + week }
        returning := s.row.tokenHash :: s.returning }
    else some s
  | .revoke =>
    if s.lock ≠ none then none
    else if s.row.pending then
      some { s with
        row := { s.row with revokedAt := some s.now }
        returning := s.row.tokenHash :: s.returning }
    else some s
  | .returns t =>
    if t ∈ s.returning then some { s with returning := s.returning.filter (· ≠ t), killed := t :: s.killed } else none
  | .tick => some { s with now := s.now + 1 }

end

/-! ## What holds in every run -/

/-- The lock excludes other acceptances. -/
structure Locked (s : System ι) : Prop where
  holds : ∀ i, s.pc i = .locked → s.lock = some i
  pending : s.lock ≠ none → s.row.pending
  accepted : ∀ i, s.pc i = .accepted → s.row.acceptedAt ≠ none
  once : ∀ i j, s.pc i = .accepted → s.pc j = .accepted → i = j

/-- The request has found the row and not come to its end. -/
def System.Waits (s : System ι) (i : ι) : Prop := s.pc i = .found ∨ s.pc i = .locked

/-- Tokens taken back, and the requests that had looked them up before. -/
structure History (token : ι → String) (es : List (Event ι)) (s : System ι) : Prop where
  current : s.row.revokedAt = none → s.row.tokenHash ∉ s.returning ∧ s.row.tokenHash ∉ s.killed
  looked : ∀ i, s.Waits i → [.lookup i] <+ es
  rotated : s.row.revokedAt = none → ∀ i, s.Waits i → token i ∈ s.returning →
    ∃ fresh, [.lookup i, .resend fresh] <+ es
  killed : s.row.revokedAt = none → ∀ i, s.Waits i → token i ∈ s.killed →
    ∃ fresh, [.lookup i, .resend fresh, .returns (token i)] <+ es
  returned : ∀ t, .returns t ∈ es → t ∈ s.killed

variable {token : ι → String} {s s' : System ι} {es : List (Event ι)}

/-! ## The calls -/

/-- A call that changes an unlocked row leaves its acceptance alone. -/
theorem Locked.update (hs : Locked s) (row : Invitation) (hfree : s.lock = none)
    (hrow : row.acceptedAt = s.row.acceptedAt) (returning : List String) :
    Locked { s with row := row, returning := returning } where
  holds := hs.holds
  pending h := absurd hfree h
  accepted i hi := by rw [hrow]; exact hs.accepted i hi
  once := hs.once

/-- An event that takes no token back, after which no more requests wait. -/
theorem History.append (hs : History token es s) {e : Event ι} (he : ∀ t, e ≠ .returns t)
    (hwaits : ∀ i, s'.Waits i → s.Waits i) (htoken : s'.row.tokenHash = s.row.tokenHash)
    (hrevoked : s'.row.revokedAt = s.row.revokedAt) (hreturning : s'.returning = s.returning)
    (hkilled : s'.killed = s.killed) : History token (es ++ [e]) s' where
  current := by
    rw [hrevoked, htoken, hreturning, hkilled]
    exact hs.current
  looked i hi := (hs.looked i (hwaits i hi)).trans (sublist_append_left es [e])
  rotated := by
    rw [hrevoked, hreturning]
    intro hrow i hi ht
    obtain ⟨fresh, hsub⟩ := hs.rotated hrow i (hwaits i hi) ht
    exact ⟨fresh, hsub.trans (sublist_append_left es [e])⟩
  killed := by
    rw [hrevoked, hkilled]
    intro hrow i hi ht
    obtain ⟨fresh, hsub⟩ := hs.killed hrow i (hwaits i hi) ht
    exact ⟨fresh, hsub.trans (sublist_append_left es [e])⟩
  returned := by
    intro t ht
    rw [hkilled]
    rcases mem_append.mp ht with ht | ht
    · exact hs.returned t ht
    · exact absurd (mem_singleton.mp ht).symm (he t)

/-- A rotation: whoever waits with the old token has looked it up before. -/
theorem History.resend (hs : History token es s) {fresh : String} (expiresAt : Nat)
    (hfresh : fresh ∉ s.row.tokenHash :: s.returning ++ s.killed) (hrow : s.row.revokedAt = none) :
    History token (es ++ [.resend fresh])
      { s with
        row := { s.row with tokenHash := fresh, expiresAt := expiresAt }
        returning := s.row.tokenHash :: s.returning } := by
  obtain ⟨hreturning, hkilled⟩ : fresh ∉ s.row.tokenHash :: s.returning ∧ fresh ∉ s.killed := by
    simpa [not_or, and_assoc] using hfresh
  constructor
  case current => exact fun _ => ⟨hreturning, hkilled⟩
  case looked => exact fun i hi => (hs.looked i hi).trans (sublist_append_left es _)
  case rotated =>
    intro _ i hi ht
    rcases mem_cons.mp ht with _ | ht
    · exact ⟨fresh, (hs.looked i hi).append (Sublist.refl [Event.resend fresh])⟩
    · obtain ⟨fresh', hsub⟩ := hs.rotated hrow i hi ht
      exact ⟨fresh', hsub.trans (sublist_append_left es _)⟩
  case killed =>
    intro _ i hi ht
    obtain ⟨fresh', hsub⟩ := hs.killed hrow i hi ht
    exact ⟨fresh', hsub.trans (sublist_append_left es _)⟩
  case returned =>
    intro t ht
    exact hs.returned t (by simpa using ht)

/-- A revoked row is live for nobody, whatever tokens were taken back. -/
theorem History.revoke (hs : History token es s) (returning : List String) :
    History token (es ++ [.revoke])
      { s with row := { s.row with revokedAt := some s.now }, returning := returning } where
  current h := by cases h
  looked i hi := (hs.looked i hi).trans (sublist_append_left es _)
  rotated h := by cases h
  killed h := by cases h
  returned t ht := hs.returned t (by simpa using ht)

/-- A call returns: its token is dead from now on. -/
theorem History.returns (hs : History token es s) {t : String} (ht : t ∈ s.returning) :
    History token (es ++ [.returns t])
      { s with returning := s.returning.filter (· ≠ t), killed := t :: s.killed } := by
  constructor
  case current =>
    intro hrow
    obtain ⟨hreturning, hkilled⟩ := hs.current hrow
    refine ⟨fun h => hreturning (mem_of_mem_filter h), fun h => ?_⟩
    rcases mem_cons.mp h with h | h
    · exact hreturning (h ▸ ht)
    · exact hkilled h
  case looked => exact fun i hi => (hs.looked i hi).trans (sublist_append_left es _)
  case rotated =>
    intro hrow i hi hmem
    obtain ⟨fresh, hsub⟩ := hs.rotated hrow i hi (mem_of_mem_filter hmem)
    exact ⟨fresh, hsub.trans (sublist_append_left es _)⟩
  case killed =>
    intro hrow i hi hmem
    rcases mem_cons.mp hmem with rfl | hmem
    · obtain ⟨fresh, hsub⟩ := hs.rotated hrow i hi ht
      exact ⟨fresh, hsub.append (Sublist.refl [Event.returns (token i)])⟩
    · obtain ⟨fresh, hsub⟩ := hs.killed hrow i hi hmem
      exact ⟨fresh, hsub.trans (sublist_append_left es _)⟩
  case returned =>
    intro t' ht'
    rcases mem_append.mp ht' with ht' | ht'
    · exact mem_cons_of_mem t (hs.returned t' ht')
    · cases mem_singleton.mp ht'
      exact mem_cons_self

def System.start (row : Invitation) (now : Nat) : System ι := ⟨row, now, none, fun _ => .begun, [], []⟩

theorem locked_start (row : Invitation) (now : Nat) : Locked (System.start row now : System ι) := by
  constructor <;> simp [System.start]

theorem history_start (token : ι → String) (row : Invitation) (now : Nat) : History token [] (.start row now) := by
  constructor <;> simp [System.start, System.Waits]

/-! ## The requests -/

variable [DecidableEq ι]

/-- A request moves on without accepting, and takes the lock only if it is pending. -/
theorem Locked.goes (hs : Locked s) (i : ι) {pc : Pc} {lock : Option ι}
    (hholds : pc = .locked → lock = some i) (hothers : ∀ j, j ≠ i → s.lock = some j → lock = some j)
    (hpending : lock ≠ none → s.row.pending) (hpc : pc ≠ .accepted) :
    Locked { s.goes i pc with lock := lock } where
  holds := by
    intro j hj
    by_cases h : j = i
    · subst h
      exact hholds (by simpa [System.goes] using hj)
    · exact hothers j h (hs.holds j (by simpa [System.goes, h] using hj))
  pending := hpending
  accepted := by
    intro j hj
    by_cases h : j = i
    · subst h
      exact absurd (by simpa [System.goes] using hj) hpc
    · exact hs.accepted j (by simpa [System.goes, h] using hj)
  once := by
    intro j k hj hk
    have hold (l : ι) (hl : (s.goes i pc).pc l = .accepted) : s.pc l = .accepted := by
      by_cases h : l = i
      · subst h
        exact absurd (by simpa [System.goes] using hl) hpc
      · simpa [System.goes, h] using hl
    exact hs.once j k (hold j hj) (hold k hk)

/-- The holder of the lock accepts: the row was pending, so nobody has accepted it before. -/
theorem Locked.commit (hs : Locked s) {i : ι} (hpc : s.pc i = .locked) :
    Locked { s.goes i .accepted with row := { s.row with acceptedAt := some s.now }, lock := none } := by
  have hlock : s.lock = some i := hs.holds i hpc
  have hrow : s.row.pending := hs.pending (by simp [hlock])
  have hnobody (j : ι) (hj : (s.goes i .accepted).pc j = .accepted) : j = i := by
    by_contra h
    exact hs.accepted j (by simpa [System.goes, h] using hj) hrow.1
  constructor
  case holds =>
    intro j hj
    by_cases h : j = i
    · subst h
      simp [System.goes] at hj
    · have hother := hs.holds j (by simpa [System.goes, h] using hj)
      rw [hlock] at hother
      exact absurd (Option.some.inj hother).symm h
  case pending =>
    intro h
    exact absurd rfl h
  case accepted =>
    intro j _
    simp
  case once =>
    intro j k hj hk
    exact (hnobody j hj).trans (hnobody k hk).symm

theorem Locked.step {e : Event ι} (hs : Locked s) (h : step token s e = some s') : Locked s' := by
  cases e with
  | lookup i =>
    simp only [AcceptInvite.step] at h
    split at h
    · cases h
    split at h <;> cases h
    all_goals exact hs.goes i (fun hpc => by cases hpc) (fun _ _ hj => hj) hs.pending (fun hpc => by cases hpc)
  | lock i =>
    simp only [AcceptInvite.step] at h
    split at h
    · cases h
    rename_i hguard
    obtain ⟨-, hfree⟩ : s.pc i = .found ∧ s.lock = none := by simpa using hguard
    split at h <;> cases h
    · rename_i hlive
      -- the lock was free, so no other request holds it
      refine hs.goes i (fun _ => rfl) ?_ (fun _ => hlive.2) (fun hpc => by cases hpc)
      intro j _ hj
      rw [hfree] at hj
      cases hj
    · exact hs.goes i (fun hpc => by cases hpc) (fun _ _ hj => hj) hs.pending (fun hpc => by cases hpc)
  | commit i =>
    simp only [AcceptInvite.step] at h
    split at h
    · cases h
    rename_i hpc
    cases h
    exact hs.commit (not_not.mp hpc)
  | abort i =>
    simp only [AcceptInvite.step] at h
    split at h <;> cases h
    -- an abort gives back the lock only if it was this request's
    refine hs.goes i (fun hpc => by cases hpc) ?_ ?_ (fun hpc => by cases hpc)
    · intro j hne hj
      rw [if_neg (by rw [hj]; simpa using hne)]
      exact hj
    · intro hlock
      split at hlock
      · exact absurd rfl hlock
      · exact hs.pending hlock
  | resend fresh =>
    simp only [AcceptInvite.step] at h
    split at h
    · cases h
    rename_i hguard
    split at h <;> cases h
    · exact hs.update { s.row with tokenHash := fresh, expiresAt := s.now + week }
        (by simpa using (not_or.mp hguard).1) rfl _
    · exact hs
  | revoke =>
    simp only [AcceptInvite.step] at h
    split at h
    · cases h
    rename_i hguard
    split at h <;> cases h
    · exact hs.update { s.row with revokedAt := some s.now } (by simpa using hguard) rfl _
    · exact hs
  | returns t =>
    simp only [AcceptInvite.step] at h
    split at h <;> cases h
    exact ⟨hs.holds, hs.pending, hs.accepted, hs.once⟩
  | tick =>
    cases h
    exact ⟨hs.holds, hs.pending, hs.accepted, hs.once⟩

/-- Only the request that moves can come to wait. -/
theorem waits_of_goes {i : ι} (pc : Pc) (hpc : pc = .found ∨ pc = .locked → s.Waits i) (j : ι)
    (hj : (s.goes i pc).Waits j) : s.Waits j := by
  by_cases h : j = i
  · subst h
    exact hpc (by simpa [System.Waits, System.goes] using hj)
  · simpa [System.Waits, System.goes, h] using hj

/-- A lookup finds the row by its token of the moment, which no call has taken back. -/
theorem History.lookup (hs : History token es s) {i : ι} (hrow : s.row.revokedAt = none)
    (htoken : s.row.tokenHash = token i) : History token (es ++ [.lookup i]) (s.goes i .found) := by
  obtain ⟨hreturning, hkilled⟩ := hs.current hrow
  have hold (j : ι) (hne : j ≠ i) (hj : (s.goes i .found).Waits j) : s.Waits j := by
    simpa [System.Waits, System.goes, hne] using hj
  constructor
  case current => exact hs.current
  case looked =>
    intro j hj
    by_cases h : j = i
    · subst h
      exact sublist_append_right es _
    · exact (hs.looked j (hold j h hj)).trans (sublist_append_left es _)
  case rotated =>
    intro _ j hj ht
    have hne : j ≠ i := by
      rintro rfl
      exact hreturning (htoken ▸ ht)
    obtain ⟨fresh, hsub⟩ := hs.rotated hrow j (hold j hne hj) ht
    exact ⟨fresh, hsub.trans (sublist_append_left es _)⟩
  case killed =>
    intro _ j hj ht
    have hne : j ≠ i := by
      rintro rfl
      exact hkilled (htoken ▸ ht)
    obtain ⟨fresh, hsub⟩ := hs.killed hrow j (hold j hne hj) ht
    exact ⟨fresh, hsub.trans (sublist_append_left es _)⟩
  case returned =>
    intro t ht
    exact hs.returned t (by simpa using ht)

theorem History.step {e : Event ι} (hs : History token es s) (h : step token s e = some s') :
    History token (es ++ [e]) s' := by
  cases e with
  | lookup i =>
    simp only [AcceptInvite.step] at h
    split at h
    · cases h
    split at h <;> cases h
    · rename_i hfound
      exact hs.lookup hfound.1.2.2 hfound.2
    · exact hs.append (fun t ht => by cases ht) (waits_of_goes _ (by simp)) rfl rfl rfl rfl
  | lock i =>
    simp only [AcceptInvite.step] at h
    split at h
    · cases h
    rename_i hguard
    obtain ⟨hpc, -⟩ : s.pc i = .found ∧ s.lock = none := by simpa using hguard
    split at h <;> cases h
    · exact hs.append (fun t ht => by cases ht) (waits_of_goes _ fun _ => .inl hpc) rfl rfl rfl rfl
    · exact hs.append (fun t ht => by cases ht) (waits_of_goes _ (by simp)) rfl rfl rfl rfl
  | commit i =>
    simp only [AcceptInvite.step] at h
    split at h <;> cases h
    exact hs.append (fun t ht => by cases ht) (waits_of_goes .accepted (by simp)) rfl rfl rfl rfl
  | abort i =>
    simp only [AcceptInvite.step] at h
    split at h <;> cases h
    exact hs.append (fun t ht => by cases ht) (waits_of_goes .ended (by simp)) rfl rfl rfl rfl
  | resend fresh =>
    simp only [AcceptInvite.step] at h
    split at h
    · cases h
    rename_i hguard
    split at h <;> cases h
    · rename_i hpending
      exact hs.resend _ (not_or.mp hguard).2 hpending.2
    · exact hs.append (fun t ht => by cases ht) (fun _ hi => hi) rfl rfl rfl rfl
  | revoke =>
    simp only [AcceptInvite.step] at h
    split at h
    · cases h
    split at h <;> cases h
    · exact hs.revoke _
    · exact hs.append (fun t ht => by cases ht) (fun _ hi => hi) rfl rfl rfl rfl
  | returns t =>
    simp only [AcceptInvite.step] at h
    split at h <;> cases h
    rename_i ht
    exact hs.returns ht
  | tick =>
    cases h
    exact hs.append (fun t ht => by cases ht) (fun _ hi => hi) rfl rfl rfl rfl

/-! ## Old links -/

/-- The property: a request does not commit with a token that a returned call has taken back. -/
def OldLinkDead (token : ι → String) (s : System ι) : Event ι → Prop
  | .commit i => token i ∉ s.killed
  | _ => True

/-- A `Resend` updates the row and returns between a request's lookup and its commit. -/
def Overtaken (token : ι → String) (events : List (Event ι)) : Prop :=
  ∃ i fresh, [.lookup i, .resend fresh, .returns (token i), .commit i] <+ events

/-- A commit is that of a request that waits for it with a pending row. -/
theorem waits_of_commit {i : ι} (hs : Locked s) (h : step token s (.commit i) = some s') :
    s.Waits i ∧ s.row.revokedAt = none := by
  simp only [step] at h
  split at h
  · cases h
  rename_i hpc
  have hlocked : s.pc i = .locked := not_not.mp hpc
  exact ⟨.inr hlocked, (hs.pending (by simp [hs.holds i hlocked])).2⟩

/-- **An old link is dead exactly if no `Resend` updates the row and returns between the lookup and the commit of a
request with that link**, and one request accepts at most. -/
theorem old_links_dead_iff (token : ι → String) (row : Invitation) (now : Nat) (events : List (Event ι))
    (hrun : Run.run (step token) (.start row now) events = some s) :
    (Run.Along (step token) (OldLinkDead token) (.start row now) events ↔ ¬Overtaken token events) ∧
      ∀ i j, s.pc i = .accepted → s.pc j = .accepted → i = j := by
  have hlocked {past : List (Event ι)} {t : System ι} (h : Run.run (step token) (.start row now) past = some t) :
      Locked t :=
    Run.run_keeps Locked (fun _ _ _ ht hstep => ht.step hstep) (locked_start row now) h
  have hhistory {past : List (Event ι)} {t : System ι} (h : Run.run (step token) (.start row now) past = some t) :
      History token past t := by
    simpa using Run.run_history (History token) (fun _ _ _ _ ht hstep => ht.step hstep)
      (history_start token row now) h
  refine ⟨?_, (hlocked hrun).once⟩
  rw [Run.along_iff_split hrun]
  constructor
  · -- the token of the request is dead once the call has returned
    rintro hdead ⟨i, fresh, hsub⟩
    obtain ⟨past, rest, rfl, hpast, hcommit⟩ := append_sublist_iff.mp
      (show [.lookup i, .resend fresh, .returns (token i)] ++ [.commit i] <+ events from hsub)
    obtain ⟨between, after, rfl⟩ := mem_iff_append.mp (singleton_sublist.mp hcommit)
    rw [← append_assoc, Run.run_append] at hrun
    obtain ⟨t, ht, hrest⟩ := Option.bind_eq_some_iff.mp hrun
    obtain ⟨t', ht', -⟩ := Run.run_cons.mp hrest
    refine hdead (past ++ between) (.commit i) after t t' (by simp) ht ht' ?_
    exact (hhistory ht).returned _ (mem_append_left _ (hpast.subset (by simp)))
  · intro hnot past e rest t t' heq hpast hstep
    cases e with
    | commit i =>
      intro hkilled
      obtain ⟨hwaits, hrow⟩ := waits_of_commit (hlocked hpast) hstep
      obtain ⟨fresh, hsub⟩ := (hhistory hpast).killed hrow i hwaits hkilled
      refine hnot ⟨i, fresh, ?_⟩
      rw [heq]
      exact hsub.append (singleton_sublist.mpr mem_cons_self)
    | _ => trivial

def oneLink : Invitation := ⟨"old", week, none, none⟩

/-- One request has the link of before a resend, the other the new one. -/
def twoLinks : Bool → String
  | false => "old"
  | true => "new"

/-- The old link is looked up before the resend and its request gives up; the new one accepts. -/
def acceptNewLink : List (Event Bool) :=
  [.lookup false, .resend "new", .returns "old", .abort false, .lookup true, .lock true, .commit true]

theorem old_links_dead_new_link : ∃ s, Run.run (step twoLinks) (.start oneLink 0) acceptNewLink = some s ∧
    s.pc true = .accepted ∧ Run.Along (step twoLinks) (OldLinkDead twoLinks) (.start oneLink 0) acceptNewLink := by
  refine ⟨_, rfl, rfl, (old_links_dead_iff twoLinks oneLink 0 acceptNewLink rfl).1.mpr ?_⟩
  rintro ⟨i, fresh, hsub⟩
  -- only the new link commits, and nobody takes it back
  have hcommit : Event.commit i ∈ acceptNewLink := hsub.subset (by simp)
  have hreturns : Event.returns (twoLinks i) ∈ acceptNewLink := hsub.subset (by simp)
  cases i <;> simp [acceptNewLink, twoLinks] at hcommit hreturns

/-- The request finds the row by the old token, `Resend` returns, and the request goes on. -/
def resendInBetween : List (Event Bool) := [.lookup false, .resend "new", .returns "old", .lock false]

def acceptAfterResend : List (Event Bool) := resendInBetween ++ [.commit false]

theorem old_link_accepts : ∃ s, Run.run (step twoLinks) (.start oneLink 0) acceptAfterResend = some s ∧
    s.pc false = .accepted ∧
      ¬Run.Along (step twoLinks) (OldLinkDead twoLinks) (.start oneLink 0) acceptAfterResend := by
  refine ⟨_, rfl, rfl, fun h => ?_⟩
  have hcommit := h.of_append rfl
  exact hcommit.1 mem_cons_self

end GoErp.Auth.AcceptInvite
