import GoErp.Lib.Processes
import GoErp.Lib.Run

/-!
# `Event.Transactional` — deliveries of one event to one subscriber

`invokeSubscription` (`eventdelivery/handler_invoker.go`) for a transactional subscription, with the
`ManagedTransaction` it runs in (`wasm/managed_transaction.go`) and the verdict of `SubscriberDeliveryWorker.Work`,
for one `(subscriber_module, event_id, emitted_at)` without replay. Duplicate jobs, retries and several workers are
any number of attempts, any of which may expire.

The claim is a row with a unique key: its `INSERT` waits while another transaction has inserted the row and not ended,
and conflicts if one has committed. Effects are what a handler writes in the managed transaction.
-/

namespace GoErp.TransactionalDelivery

open Lib.Run Lib.Processes

/-! ## Attempts -/

/-- The errors that `invokeSubscription` returns, by the step that failed. -/
inductive InvokeError where
  /-- tenant, user, instance, locale or the transaction could not be had -/
  | prepare
  /-- `role.ErrNotMember`: the emitting user is no member of the tenant any more -/
  | notMember
  | claim
  /-- the envelope could not be encoded, or the handler trapped -/
  | handler
  | commit
deriving DecidableEq, Repr

/-- The status of the handler, or the error of the invocation. -/
abbrev Result : Type := Except InvokeError Int

/-- The managed transaction of an attempt, with what the handler has written in it. -/
inductive Tx (X : Type) where
  | none
  | open_ (writes : List X)
  | finished
deriving DecidableEq, Repr

/-- Where an attempt stands in `invokeSubscription`. -/
inductive Pc where
  | idle
  /-- before the `INSERT` of the claim -/
  | claiming
  | handling
  /-- before `managed.Commit` -/
  | committing
  /-- returns, with `managed.Rollback` still to run -/
  | unwinding (r : Result)
  | returned (r : Result)
deriving DecidableEq

/-- One run of `SubscriberDeliveryWorker.Work`. -/
structure Attempt (X : Type) where
  pc : Pc
  tx : Tx X

/-- What the worker reports to River. -/
inductive JobResult where
  | done
  /-- no further attempt by itself -/
  | permanent
  | retry
  /-- `river.JobCancel` -/
  | cancelled
deriving DecidableEq, Repr

/-- The status by which a handler refuses an event for good. -/
def statusPermanent : Int := 2

/-- The end of `SubscriberDeliveryWorker.Work`, from what `invokeSubscription` has returned. -/
def work : Result → JobResult
  | .ok status => if status = 0 then .done else if status = statusPermanent then .permanent else .retry
  | .error .notMember => .cancelled
  | .error _ => .retry

/-! ## The system -/

/-- The attempts, and what the database holds of the delivery. -/
structure System (X : Type) where
  attempts : Nat → Attempt X
  /-- the committed row of `event_deliveries`, with the attempt that inserted it -/
  ledger : Option Nat
  /-- the attempt whose open transaction has inserted the row -/
  holder : Option Nat
  /-- the attempts whose transaction has committed, the last first -/
  commits : List Nat
  /-- the committed effects -/
  db : List (Nat × X)

def System.init (X : Type) : System X := ⟨fun _ => ⟨.idle, .none⟩, none, none, [], []⟩

/-- How the part of an attempt before its transaction ends. -/
inductive PrepareResult where
  | ok
  | failed
  | notMember

/-- One step of one attempt, with the outcome that the database or the handler gives it. -/
inductive Event (X : Type) where
  /-- everything up to `BeginManagedTransaction` -/
  | prepare (a : Nat) (result : PrepareResult)
  | claim (a : Nat) (ok : Bool)
  | write (a : Nat) (x : X)
  /-- the context of the transaction ends, and with it the transaction -/
  | expire (a : Nat)
  | handled (a : Nat) (r : Except Unit Int)
  | commit (a : Nat) (result : CommitResult)
  | finish (a : Nat)

variable {X : Type}

def System.setAttempt (s : System X) (a : Nat) (pc : Pc) (tx : Tx X) : System X :=
  { s with attempts := Function.update s.attempts a ⟨pc, tx⟩ }

/-- The transaction of an attempt ends without commit, and with it the lock on the key. -/
def System.release (s : System X) (a : Nat) : System X :=
  { s with holder := if s.holder = some a then none else s.holder }

/-- The transaction of an attempt commits what it has written. -/
def System.commitTx (s : System X) (a : Nat) (writes : List X) : System X :=
  { s.release a with ledger := some a, commits := a :: s.commits, db := s.db ++ writes.map fun x => (a, x) }

/-- `managed.Rollback`, which does nothing to a transaction that has ended. -/
def System.rollback (s : System X) (a : Nat) (pc : Pc) : System X :=
  match (s.attempts a).tx with
  | .open_ _ => (s.release a).setAttempt a pc .finished
  | tx => s.setAttempt a pc tx

/-- The step of an event, if the attempt can take it. -/
def step (s : System X) : Event X → Option (System X)
  | .prepare a result =>
    if (s.attempts a).pc = .idle then
      match result with
      | .ok => some (s.setAttempt a .claiming (.open_ []))
      | .failed => some (s.setAttempt a (.returned (.error .prepare)) .none)
      | .notMember => some (s.setAttempt a (.returned (.error .notMember)) .none)
    else none
  | .claim a ok =>
    if (s.attempts a).pc = .claiming then
      if ok then
        match (s.attempts a).tx with
        | .open_ writes =>
          -- the `INSERT` waits for the transaction that has inserted the row
          if s.holder.isSome then none
          else if s.ledger.isSome then some (s.setAttempt a (.unwinding (.ok 0)) (.open_ writes))
          else some ({ s with holder := some a }.setAttempt a .handling (.open_ writes))
        | _ => none
      else some (s.setAttempt a (.unwinding (.error .claim)) (s.attempts a).tx)
    else none
  | .write a x =>
    match (s.attempts a).pc, (s.attempts a).tx with
    | .handling, .open_ writes => some (s.setAttempt a .handling (.open_ (writes ++ [x])))
    | _, _ => none
  | .expire a =>
    match (s.attempts a).tx with
    | .open_ _ => some ((s.release a).setAttempt a (s.attempts a).pc .finished)
    | _ => none
  | .handled a r =>
    if (s.attempts a).pc = .handling then
      match r with
      | .error _ => some (s.setAttempt a (.unwinding (.error .handler)) (s.attempts a).tx)
      | .ok status =>
        if status = 0 then some (s.setAttempt a .committing (s.attempts a).tx)
        else some (s.setAttempt a (.unwinding (.ok status)) (s.attempts a).tx)
    else none
  | .commit a result =>
    if (s.attempts a).pc = .committing then
      match (s.attempts a).tx with
      | .open_ writes =>
        match result with
        | .ok => some ((s.commitTx a writes).setAttempt a (.unwinding (.ok 0)) .finished)
        | .lost => some ((s.commitTx a writes).setAttempt a (.unwinding (.error .commit)) .finished)
        | .rolledBack => some ((s.release a).setAttempt a (.unwinding (.error .commit)) .finished)
      -- `sql.ErrTxDone`
      | tx => some (s.setAttempt a (.unwinding (.error .commit)) tx)
    else none
  | .finish a =>
    match (s.attempts a).pc with
    | .unwinding r => some (s.rollback a (.returned r))
    | _ => none

/-! ## Exactly once -/

/-- What is promised of a delivery at every moment. -/
structure ExactlyOnce (s : System X) : Prop where
  commits_le : s.commits.length ≤ 1
  /-- a job that is done has a commit behind it -/
  done : ∀ a r, (s.attempts a).pc = .returned r → work r = .done → s.commits ≠ []
  /-- an attempt without commit has neither a committed claim nor committed effects -/
  uncommitted : ∀ a, a ∉ s.commits → s.ledger ≠ some a ∧ ∀ x, (a, x) ∉ s.db
  /-- an attempt that has returned leaves no transaction open and no claim that others would wait for -/
  returned : ∀ a r, (s.attempts a).pc = .returned r →
    (∀ writes, (s.attempts a).tx ≠ .open_ writes) ∧ s.holder ≠ some a

/-- Runs in the transaction that has the claim. -/
def Pc.inClaim : Pc → Prop
  | .handling | .committing => True
  | _ => False

/-- Is about to report success, or has. -/
def Pc.succeeds : Pc → Prop
  | .unwinding r | .returned r => work r = .done
  | _ => False

/-- Has not begun, or has returned. -/
def Pc.outside : Pc → Prop
  | .idle | .returned _ => True
  | _ => False

structure Inv (s : System X) : Prop where
  /-- an uncommitted claim excludes a committed one -/
  holder : s.holder ≠ none → s.ledger = none
  /-- an uncommitted claim is that of an open transaction -/
  held : ∀ a, s.holder = some a → ∃ writes, (s.attempts a).tx = .open_ writes
  outside : ∀ a, (s.attempts a).pc.outside → ∀ writes, (s.attempts a).tx ≠ .open_ writes
  claimed : ∀ a, (s.attempts a).pc.inClaim → (∃ writes, (s.attempts a).tx = .open_ writes) → s.holder = some a
  commits : s.commits = s.ledger.toList
  db : ∀ a x, (a, x) ∈ s.db → a ∈ s.commits
  succeeds : ∀ a, (s.attempts a).pc.succeeds → s.ledger ≠ none

theorem Inv.init : Inv (System.init X) where
  holder := by intro h; exact absurd rfl h
  held := by intro a h; cases h
  outside := by intro a _ writes h; cases h
  claimed := by intro a h; exact h.elim
  commits := rfl
  db := by intro a x h; simp [System.init] at h
  succeeds := by intro a h; exact h.elim

variable {s : System X}

theorem Inv.exactlyOnce (hs : Inv s) : ExactlyOnce s where
  commits_le := by
    rw [hs.commits]
    cases s.ledger <;> simp
  done := by
    intro a r hr hdone
    have hledger : s.ledger ≠ none := hs.succeeds a (by rw [hr]; exact hdone)
    rw [hs.commits]
    simpa using hledger
  uncommitted := by
    intro a ha
    constructor
    · intro hledger
      rw [hs.commits, hledger] at ha
      simp at ha
    · intro x hx
      exact ha (hs.db a x hx)
  returned := by
    intro a r hr
    have hclosed := hs.outside a (by rw [hr]; trivial)
    refine ⟨hclosed, ?_⟩
    intro hholder
    obtain ⟨writes, hopen⟩ := hs.held a hholder
    exact hclosed writes hopen

/-! ## What keeps the invariant -/

theorem setAttempt_of_ne (s : System X) {a b : Nat} (pc : Pc) (tx : Tx X) (h : b ≠ a) :
    (s.setAttempt a pc tx).attempts b = s.attempts b := Function.update_of_ne h ..

@[simp] theorem setAttempt_self (s : System X) (a : Nat) (pc : Pc) (tx : Tx X) :
    (s.setAttempt a pc tx).attempts a = ⟨pc, tx⟩ := Function.update_self ..

/-- An attempt moves on: into the transaction with the claim only as the holder, to success only with a commit, out of
the call only without a transaction. -/
theorem Inv.setAttempt (hs : Inv s) (a : Nat) {pc : Pc} {tx : Tx X}
    (hheld : s.holder = some a → ∃ writes, tx = .open_ writes)
    (houtside : pc.outside → ∀ writes, tx ≠ .open_ writes)
    (hclaimed : pc.inClaim → (∃ writes, tx = .open_ writes) → s.holder = some a)
    (hsucceeds : pc.succeeds → s.ledger ≠ none) : Inv (s.setAttempt a pc tx) where
  holder := hs.holder
  held := by
    intro b hb
    by_cases h : b = a
    · subst h
      rw [setAttempt_self]
      exact hheld hb
    · rw [setAttempt_of_ne s pc tx h]
      exact hs.held b hb
  outside := by
    intro b hpc
    by_cases h : b = a
    · subst h
      rw [setAttempt_self] at hpc ⊢
      exact houtside hpc
    · rw [setAttempt_of_ne s pc tx h] at hpc ⊢
      exact hs.outside b hpc
  claimed := by
    intro b hpc htx
    by_cases h : b = a
    · subst h
      rw [setAttempt_self] at hpc htx
      exact hclaimed hpc htx
    · rw [setAttempt_of_ne s pc tx h] at hpc htx
      exact hs.claimed b hpc htx
  commits := hs.commits
  db := hs.db
  succeeds := by
    intro b hpc
    by_cases h : b = a
    · subst h
      rw [setAttempt_self] at hpc
      exact hsucceeds hpc
    · rw [setAttempt_of_ne s pc tx h] at hpc
      exact hs.succeeds b hpc

/-- An attempt whose transaction has ended may stand anywhere. -/
theorem Inv.outside_finished (hs : Inv s) (a : Nat) (pc : Pc) (b : Nat) :
    (Function.update s.attempts a ⟨pc, .finished⟩ b).pc.outside →
      ∀ writes, (Function.update s.attempts a ⟨pc, .finished⟩ b).tx ≠ .open_ writes := by
  by_cases h : b = a
  · subst h
    rw [Function.update_self]
    intro _ writes hopen
    cases hopen
  · rw [Function.update_of_ne h]
    exact hs.outside b

/-- The transaction of an attempt ends without commit. -/
theorem Inv.endTx (hs : Inv s) (a : Nat) {pc : Pc} (hsucceeds : pc.succeeds → s.ledger ≠ none) :
    Inv ((s.release a).setAttempt a pc .finished) where
  holder := by
    show (if s.holder = some a then none else s.holder) ≠ none → s.ledger = none
    intro h
    split at h
    · exact absurd rfl h
    · exact hs.holder h
  held := by
    intro b hb
    change (if s.holder = some a then none else s.holder) = some b at hb
    split at hb
    · cases hb
    rename_i hother
    have hne : b ≠ a := fun h => hother (h ▸ hb)
    rw [setAttempt_of_ne _ pc _ hne]
    exact hs.held b hb
  outside := Inv.outside_finished hs a pc
  claimed := by
    intro b hpc htx
    by_cases h : b = a
    · subst h
      obtain ⟨writes, hwrites⟩ := htx
      simp at hwrites
    rw [setAttempt_of_ne _ pc _ h] at hpc htx
    have hholder : s.holder = some b := hs.claimed b hpc htx
    show (if s.holder = some a then none else s.holder) = some b
    rw [hholder, if_neg (by simpa using h)]
  commits := hs.commits
  db := hs.db
  succeeds := by
    intro b hpc
    by_cases h : b = a
    · subst h
      rw [setAttempt_self] at hpc
      exact hsucceeds hpc
    · rw [setAttempt_of_ne _ pc _ h] at hpc
      exact hs.succeeds b hpc

/-- The holder of the claim commits: nobody has committed before, and nobody else is in a transaction with the claim. -/
theorem Inv.commitTx (hs : Inv s) {a : Nat} (hholder : s.holder = some a) (writes : List X) (pc : Pc)
    (hpc : ¬ pc.inClaim) : Inv ((s.commitTx a writes).setAttempt a pc .finished) where
  holder := by
    show (if s.holder = some a then none else s.holder) ≠ none → some a = none
    rw [if_pos hholder]
    exact fun h => absurd rfl h
  held := by
    intro b hb
    change (if s.holder = some a then none else s.holder) = some b at hb
    rw [if_pos hholder] at hb
    cases hb
  outside := Inv.outside_finished hs a pc
  claimed := by
    intro b hb htx
    by_cases h : b = a
    · subst h
      rw [setAttempt_self] at hb
      exact absurd hb hpc
    rw [setAttempt_of_ne _ pc _ h] at hb htx
    have hother : s.holder = some b := hs.claimed b hb htx
    rw [hholder] at hother
    exact absurd (Option.some.inj hother).symm h
  commits := by
    show a :: s.commits = [a]
    rw [hs.commits, hs.holder (by rw [hholder]; simp)]
    rfl
  db := by
    intro b x hx
    show b ∈ a :: s.commits
    rcases List.mem_append.mp hx with hx | hx
    · exact List.mem_cons_of_mem _ (hs.db b x hx)
    obtain ⟨y, -, hy⟩ := List.mem_map.mp hx
    rw [← (Prod.mk.inj hy).1]
    exact List.mem_cons_self
  succeeds := by
    intro b _
    show some a ≠ none
    simp

theorem Inv.step {t : System X} (hs : Inv s) {e : Event X} (h : step s e = some t) : Inv t := by
  cases e with
  | prepare a result =>
    simp only [TransactionalDelivery.step] at h
    split at h
    · rename_i hidle
      -- an idle attempt has no transaction, so the claim is not its own
      have hother : s.holder ≠ some a := by
        intro hholder
        obtain ⟨writes, hopen⟩ := hs.held a hholder
        exact hs.outside a (by rw [hidle]; trivial) writes hopen
      have hnone : ∀ writes : List X, Tx.none ≠ .open_ writes := fun writes hopen => by cases hopen
      cases result with
      | ok =>
        cases h
        exact hs.setAttempt a (fun _ => ⟨[], rfl⟩) (fun hc => hc.elim) (fun hc => hc.elim) fun hc => hc.elim
      | failed | notMember =>
        cases h
        exact hs.setAttempt a (fun hc => absurd hc hother) (fun _ => hnone) (fun hc => hc.elim)
          fun hc => by simp [Pc.succeeds, work] at hc
    · simp at h
  | claim a ok =>
    simp only [TransactionalDelivery.step] at h
    split at h
    · split at h
      · split at h
        · rename_i writes htx
          split at h
          · simp at h
          rename_i hfree
          split at h
          · rename_i hledger
            cases h
            refine hs.setAttempt a (fun _ => ⟨writes, rfl⟩) (fun hc => hc.elim) (fun hc => hc.elim) ?_
            intro _ hnone
            rw [hnone] at hledger
            simp at hledger
          · rename_i hledger
            cases h
            have hholder : s.holder = none := by simpa using hfree
            have hnone : s.ledger = none := by simpa using hledger
            have hheld : Inv { s with holder := some a } := by
              refine ⟨fun _ => hnone, ?_, hs.outside, ?_, hs.commits, hs.db, hs.succeeds⟩
              · intro b hb
                rw [← Option.some.inj hb]
                exact ⟨writes, htx⟩
              · intro b hb hopen
                -- no other attempt is in a transaction with the claim
                have := hs.claimed b hb hopen
                rw [hholder] at this
                simp at this
            exact hheld.setAttempt a (fun _ => ⟨writes, rfl⟩) (fun hc => hc.elim) (fun _ _ => rfl) fun hc => hc.elim
        · simp at h
      · cases h
        exact hs.setAttempt a (hs.held a) (fun hc => hc.elim) (fun hc => hc.elim)
          fun hc => by simp [Pc.succeeds, work] at hc
    · simp at h
  | write a x =>
    simp only [TransactionalDelivery.step] at h
    split at h
    · rename_i writes hpc htx
      cases h
      refine hs.setAttempt a (fun _ => ⟨writes ++ [x], rfl⟩) (fun hc => hc.elim) ?_ fun hc => hc.elim
      intro _ _
      exact hs.claimed a (by rw [hpc]; trivial) ⟨writes, htx⟩
    · simp at h
  | expire a =>
    simp only [TransactionalDelivery.step] at h
    split at h
    · cases h
      exact hs.endTx a (hs.succeeds a)
    · simp at h
  | handled a r =>
    simp only [TransactionalDelivery.step] at h
    split at h
    · rename_i hpc
      split at h
      · cases h
        exact hs.setAttempt a (hs.held a) (fun hc => hc.elim) (fun hc => hc.elim)
          fun hc => by simp [Pc.succeeds, work] at hc
      split at h
      · cases h
        refine hs.setAttempt a (hs.held a) (fun hc => hc.elim) ?_ fun hc => hc.elim
        intro _ htx
        exact hs.claimed a (by rw [hpc]; trivial) htx
      rename_i status hstatus
      cases h
      refine hs.setAttempt a (hs.held a) (fun hc => hc.elim) (fun hc => hc.elim) ?_
      intro hc
      simp only [Pc.succeeds, work, if_neg hstatus] at hc
      split at hc <;> simp at hc
    · simp at h
  | commit a result =>
    simp only [TransactionalDelivery.step] at h
    split at h
    · rename_i hpc
      split at h
      · rename_i writes htx
        have hholder := hs.claimed a (by rw [hpc]; trivial) ⟨writes, htx⟩
        cases result with
        | ok | lost =>
          cases h
          exact hs.commitTx hholder writes _ id
        | rolledBack =>
          cases h
          exact hs.endTx a fun hc => by simp [Pc.succeeds, work] at hc
      · cases h
        exact hs.setAttempt a (hs.held a) (fun hc => hc.elim) (fun hc => hc.elim)
          fun hc => by simp [Pc.succeeds, work] at hc
    · simp at h
  | finish a =>
    simp only [TransactionalDelivery.step] at h
    split at h
    · rename_i r hpc
      cases h
      have hsucceeds : (Pc.returned r).succeeds → s.ledger ≠ none := by
        intro hc
        exact hs.succeeds a (by rw [hpc]; exact hc)
      -- the deferred rollback ends what is still open
      unfold System.rollback
      split
      · exact hs.endTx a hsucceeds
      · rename_i hclosed
        exact hs.setAttempt a (hs.held a) (fun _ writes hopen => hclosed writes hopen) (fun hc => hc.elim) hsucceeds
    · simp at h

/-- **Transactional delivery has exactly-once effects**, in every interleaving of attempts with every outcome of
claim, handler and commit: at most one managed transaction commits, a job is done only if one has, an attempt that
has not committed has neither claim nor effects, and one that has returned leaves nothing open. -/
theorem delivery_exactly_once (es : List (Event X)) {s : System X} (h : run step (System.init X) es = some s) :
    ExactlyOnce s :=
  (run_keeps Inv (fun _ _ _ hi hstep => hi.step hstep) Inv.init h).exactlyOnce

/-- The handler of the first attempt writes and asks for a retry, while the second attempt waits for the claim; the
second commits and loses the answer; its retry finds the claim. -/
def lostCommit : List (Event Nat) :=
  [.prepare 0 .ok, .prepare 1 .ok, .claim 0 true, .write 0 5, .handled 0 (.ok 1), .finish 0, .claim 1 true,
    .write 1 7, .handled 1 (.ok 0), .commit 1 .lost, .finish 1, .prepare 2 .ok, .claim 2 true, .finish 2]

theorem delivery_exactly_once_lost_commit :
    ∃ s, run step (System.init Nat) lostCommit = some s ∧ s.commits = [1] ∧ s.db = [(1, 7)] ∧ ExactlyOnce s :=
  ⟨_, rfl, rfl, rfl, delivery_exactly_once lostCommit rfl⟩

end GoErp.TransactionalDelivery
