import GoErp.Lib.Processes
import GoErp.Lib.Run

/-!
# `Wasm.Pool` — instances, tokens and draining

`wasm/pool.go`: `Borrow`, `Return`, `replenishLoop` and `DrainAndClose` of one `InstancePool`, with any number of
calls of each. Every channel operation, start or end of an instantiation, closing of an instance and access to
`draining` or `borrowed` is one step.

Draining does not wait for a `Borrow` that has passed its first look at the idle channel and is not yet counted:
`drained_iff` says when the result of `DrainAndClose` can be relied on.
-/

namespace GoErp.InstancePool

open Lib Lib.Run List

/-! ## The state -/

structure PoolConfig where
  warmSize : Nat
  maxSize : Nat
deriving DecidableEq, Repr

/-- A size that is 0 is the default. -/
def PoolConfig.withDefaults (cfg : PoolConfig) : PoolConfig where
  warmSize := if cfg.warmSize = 0 then 4 else cfg.warmSize
  maxSize := if cfg.maxSize = 0 then 16 else cfg.maxSize

inductive PoolError where
  | draining
  | timeout
  | instantiate
deriving DecidableEq, Repr

/-- A call of `Borrow`, and of `Return` for the instance it gave. -/
inductive Borrow where
  /-- has passed the draining test -/
  | entered
  /-- in the second `select` -/
  | waiting
  /-- has a token and creates an instance -/
  | instantiating
  /-- the instantiation has failed -/
  | releasing
  /-- has an instance, before `afterBorrow` -/
  | handedOver
  /-- has returned the instance -/
  | held
  /-- in `Return` -/
  | closing
  /-- in `Return`, without the token -/
  | released
  | returned
  | failed (e : PoolError)
deriving DecidableEq, Repr

/-- Where the replenishing goroutine stands. -/
inductive Replenisher where
  | selecting
  | instantiating
  | releasing
  /-- sends its instance to `idle` -/
  | offering
  | closing
  | done
deriving DecidableEq, Repr

/-- The body of `closeIdle`, which runs once. -/
inductive Closer where
  | notStarted
  /-- waits for `replenishDone` -/
  | stopping
  /-- receives from the closed `idle` -/
  | sweeping
  | closing
  | finished
deriving DecidableEq, Repr

/-- A call of `DrainAndClose`. -/
inductive Drainer where
  /-- has set `draining` -/
  | entered
  | polling
  | returnedNil
  | failed
deriving DecidableEq, Repr

/-- The channels, the counters and the goroutines of a pool. -/
structure Pool where
  cfg : PoolConfig
  /-- elements of the channel `tokens` -/
  tokens : Nat
  /-- instances in the channel `idle` -/
  idle : Nat
  idleClosed : Bool
  draining : Bool
  borrowed : Int
  borrows : List Borrow
  replenisher : Replenisher
  closer : Closer
  drainers : List Drainer
deriving DecidableEq, Repr

/-- `NewInstancePool` -/
def NewInstancePool (cfg : PoolConfig) : Pool where
  cfg := cfg.withDefaults
  tokens := 0
  idle := 0
  idleClosed := false
  draining := false
  borrowed := 0
  borrows := []
  replenisher := .selecting
  closer := .notStarted
  drainers := []

/-! ## Steps -/

/-- The steps of `Borrow`. -/
inductive BorrowEvent where
  | firstSelect
  | takeToken
  | takeIdle
  /-- `ctx` is done, or `BorrowTimeout` has passed -/
  | cancel
  | instantiated (ok : Bool)
  /-- `<-p.tokens` -/
  | release
  | afterBorrow
  | return_
  | uncount
deriving DecidableEq, Repr

/-- A step of a `Borrow` or `Return`: the pool without the new state of the call, and that state. -/
def Pool.borrowStep (p : Pool) : Borrow → BorrowEvent → Option (Pool × Borrow)
  | .entered, .firstSelect =>
    if 0 < p.idle then some ({ p with idle := p.idle - 1 }, .handedOver)
    else if p.idleClosed then some (p, .failed .draining)
    else some (p, .waiting)
  | .waiting, .takeToken =>
    if p.tokens < p.cfg.maxSize then some ({ p with tokens := p.tokens + 1 }, .instantiating) else none
  | .waiting, .takeIdle =>
    if 0 < p.idle then some ({ p with idle := p.idle - 1 }, .handedOver)
    else if p.idleClosed then some (p, .failed .draining)
    else none
  | .waiting, .cancel => some (p, .failed .timeout)
  | .instantiating, .instantiated ok => some (p, if ok then .handedOver else .releasing)
  | .releasing, .release =>
    if 0 < p.tokens then some ({ p with tokens := p.tokens - 1 }, .failed .instantiate) else none
  | .handedOver, .afterBorrow => some ({ p with borrowed := p.borrowed + 1 }, .held)
  | .held, .return_ => some (p, .closing)
  | .closing, .release => if 0 < p.tokens then some ({ p with tokens := p.tokens - 1 }, .released) else none
  | .released, .uncount => some ({ p with borrowed := p.borrowed - 1 }, .returned)
  | _, _ => none

/-- The steps of the goroutine that keeps the pool warm. -/
inductive ReplenishEvent where
  | takeToken
  | instantiated (ok : Bool)
  | release
  | send
  /-- `<-ctx.Done()` -/
  | stop
deriving DecidableEq, Repr

/-- The context of the loop is cancelled when `closeIdle` starts. -/
def Pool.stopped (p : Pool) : Bool := p.closer ≠ .notStarted

/-- A step of the replenishing goroutine, if it can be taken. -/
def Pool.replenishStep (p : Pool) : Replenisher → ReplenishEvent → Option (Pool × Replenisher)
  | .selecting, .stop => if p.stopped then some (p, .done) else none
  | .selecting, .takeToken =>
    if p.tokens < p.cfg.maxSize then some ({ p with tokens := p.tokens + 1 }, .instantiating) else none
  | .instantiating, .instantiated ok => some (p, if ok then .offering else .releasing)
  | .releasing, .release =>
    if 0 < p.tokens then some ({ p with tokens := p.tokens - 1 }, .selecting) else none
  | .offering, .send =>
    if p.idle < p.cfg.warmSize then some ({ p with idle := p.idle + 1 }, .selecting) else none
  | .offering, .stop => if p.stopped then some (p, .closing) else none
  | .closing, .release => if 0 < p.tokens then some ({ p with tokens := p.tokens - 1 }, .done) else none
  | _, _ => none

/-- A step of the body of `closeIdle`. -/
def Pool.closeStep (p : Pool) : Closer → Option Pool
  | .notStarted => none
  | .stopping =>
    if p.replenisher = .done then some { p with idleClosed := true, closer := .sweeping } else none
  | .sweeping =>
    if 0 < p.idle then some { p with idle := p.idle - 1, closer := .closing }
    else some { p with closer := .finished }
  | .closing => if 0 < p.tokens then some { p with tokens := p.tokens - 1, closer := .sweeping } else none
  | .finished => none

/-- A call, a step of a call, or a step of one of the pool's goroutines. -/
inductive Event where
  | borrow
  | borrowStep (b : Nat) (e : BorrowEvent)
  | replenish (e : ReplenishEvent)
  | drain
  /-- the first to call `closeIdle` starts its body -/
  | startClose (d : Nat)
  | closeStep
  /-- `closeIdle` returns -/
  | closed (d : Nat)
  | poll (d : Nat)
  | timeout (d : Nat)
deriving DecidableEq, Repr

/-- The events of the pool: calls, their steps, and the goroutines' own. -/
def step (p : Pool) : Event → Option Pool
  | .borrow =>
    some { p with borrows := p.borrows ++ [if p.draining then .failed .draining else .entered] }
  | .borrowStep b e =>
    match p.borrows[b]? with
    | none => none
    | some pc =>
      match p.borrowStep pc e with
      | none => none
      | some (p', pc') => some { p' with borrows := p'.borrows.set b pc' }
  | .replenish e =>
    match p.replenishStep p.replenisher e with
    | none => none
    | some (p', pc') => some { p' with replenisher := pc' }
  | .drain => some { p with draining := true, drainers := p.drainers ++ [.entered] }
  | .startClose d =>
    if p.drainers[d]? = some .entered ∧ p.closer = .notStarted then some { p with closer := .stopping } else none
  | .closeStep => p.closeStep p.closer
  | .closed d =>
    if p.drainers[d]? = some .entered ∧ p.closer = .finished then
      some { p with drainers := p.drainers.set d .polling }
    else none
  | .poll d =>
    if p.drainers[d]? = some .polling then
      if p.borrowed = 0 then some { p with drainers := p.drainers.set d .returnedNil } else some p
    else none
  | .timeout d =>
    if p.drainers[d]? = some .polling then some { p with drainers := p.drainers.set d .failed } else none

/-! ## Tokens and live instances -/

/-- Holds a token. -/
def Borrow.holdsToken : Borrow → Bool
  | .instantiating | .releasing | .handedOver | .held | .closing => true
  | _ => false

/-- Creates, has or closes an instance. -/
def Borrow.isLive : Borrow → Bool
  | .instantiating | .handedOver | .held | .closing => true
  | _ => false

/-- Is counted in `borrowed`. -/
def Borrow.isCounted : Borrow → Bool
  | .held | .closing | .released => true
  | _ => false

def Replenisher.holdsToken : Replenisher → Bool
  | .instantiating | .releasing | .offering | .closing => true
  | _ => false

def Replenisher.isLive : Replenisher → Bool
  | .instantiating | .offering | .closing => true
  | _ => false

def Closer.isLive : Closer → Bool
  | .closing => true
  | _ => false

/-- The instances that are being created, handed over, idle, borrowed or being closed. -/
def Pool.live (p : Pool) : Nat :=
  p.borrows.countP Borrow.isLive + p.idle + p.replenisher.isLive.toNat + p.closer.isLive.toNat

/-- Attempts to create an instance that have failed and not yet given back their token. -/
def Pool.failing (p : Pool) : Nat :=
  p.borrows.countP (fun b => b = .releasing) + (decide (p.replenisher = .releasing)).toNat

/-- Every live instance has a token, every token is that of a live instance or of a failed attempt, and there are at
most `MaxSize`. -/
structure Accounted (p : Pool) : Prop where
  tokens : p.tokens = p.live + p.failing
  tokens_le : p.tokens ≤ p.cfg.maxSize

/-- A `Borrow` that neither waits at its first look at `idle` nor is counted, and may still get an instance. -/
def Borrow.Uncounted : Borrow → Prop
  | .waiting | .instantiating | .handedOver => True
  | _ => False

instance (b : Borrow) : Decidable b.Uncounted := by
  unfold Borrow.Uncounted
  split <;> infer_instance

/-! ## What a step does -/

/-- A step of a `Borrow` or `Return` moves tokens, idle instances and the counter with the state of the call, and
touches nothing else. -/
structure BorrowEffect (p p' : Pool) (pc pc' : Borrow) : Prop where
  tokens : p'.tokens + p.idle + pc.holdsToken.toNat = p.tokens + p'.idle + pc'.holdsToken.toNat
  tokens_le : p.tokens ≤ p.cfg.maxSize → p'.tokens ≤ p.cfg.maxSize
  borrowed : p'.borrowed + pc.isCounted.toNat = p.borrowed + pc'.isCounted.toNat
  idle_le : p'.idle ≤ p.idle
  rest : p' = { p with tokens := p'.tokens, idle := p'.idle, borrowed := p'.borrowed }

variable {p p' : Pool} {pc' pc : Borrow}

/-- What a step of `Borrow` does to the counters, whichever it is. -/
theorem borrowEffect_of_borrowStep {e : BorrowEvent}
    (h : p.borrowStep pc e = some (p', pc')) : BorrowEffect p p' pc pc' := by
  unfold Pool.borrowStep at h
  split at h
  case h_1 =>
    split at h
    · cases h
      refine ⟨?_, id, rfl, Nat.sub_le .., rfl⟩
      simp only [Borrow.holdsToken, Bool.toNat_true, Bool.toNat_false]
      omega
    · split at h <;> cases h <;> exact ⟨rfl, id, rfl, Nat.le_refl _, rfl⟩
  case h_2 =>
    split at h <;> cases h
    refine ⟨?_, fun _ => ‹_›, rfl, Nat.le_refl _, rfl⟩
    simp only [Borrow.holdsToken, Bool.toNat_true, Bool.toNat_false]
    omega
  case h_3 =>
    split at h
    · cases h
      refine ⟨?_, id, rfl, Nat.sub_le .., rfl⟩
      simp only [Borrow.holdsToken, Bool.toNat_true, Bool.toNat_false]
      omega
    split at h <;> cases h
    exact ⟨rfl, id, rfl, Nat.le_refl _, rfl⟩
  case h_4 | h_8 =>
    cases h
    exact ⟨rfl, id, rfl, Nat.le_refl _, rfl⟩
  case h_5 ok =>
    cases h
    cases ok <;> exact ⟨rfl, id, rfl, Nat.le_refl _, rfl⟩
  case h_6 | h_9 =>
    split at h <;> cases h
    refine ⟨?_, fun hle => Nat.le_trans (Nat.sub_le ..) hle, rfl, Nat.le_refl _, rfl⟩
    simp only [Borrow.holdsToken, Bool.toNat_true, Bool.toNat_false]
    omega
  case h_7 | h_10 =>
    cases h
    refine ⟨rfl, id, ?_, Nat.le_refl _, rfl⟩
    simp [Borrow.isCounted]
  case h_11 => cases h

/-- What a step of the replenisher does to the counters. -/
structure ReplenishEffect (p p' : Pool) (pc pc' : Replenisher) : Prop where
  tokens : p'.tokens + p.idle + pc.holdsToken.toNat = p.tokens + p'.idle + pc'.holdsToken.toNat
  tokens_le : p.tokens ≤ p.cfg.maxSize → p'.tokens ≤ p.cfg.maxSize
  /-- the loop has not ended -/
  running : pc ≠ .done
  rest : p' = { p with tokens := p'.tokens, idle := p'.idle }

theorem replenishEffect_of_replenishStep {pc pc' : Replenisher} {e : ReplenishEvent}
    (h : p.replenishStep pc e = some (p', pc')) : ReplenishEffect p p' pc pc' := by
  unfold Pool.replenishStep at h
  split at h
  case h_1 | h_6 =>
    split at h <;> cases h
    exact ⟨rfl, id, Replenisher.noConfusion, rfl⟩
  case h_2 =>
    split at h <;> cases h
    refine ⟨?_, fun _ => ‹_›, Replenisher.noConfusion, rfl⟩
    simp only [Replenisher.holdsToken, Bool.toNat_true, Bool.toNat_false]
    omega
  case h_3 ok =>
    cases h
    cases ok <;> exact ⟨rfl, id, Replenisher.noConfusion, rfl⟩
  case h_4 | h_7 =>
    split at h <;> cases h
    refine ⟨?_, fun hle => Nat.le_trans (Nat.sub_le ..) hle, Replenisher.noConfusion, rfl⟩
    simp only [Replenisher.holdsToken, Bool.toNat_true, Bool.toNat_false]
    omega
  case h_5 =>
    split at h <;> cases h
    refine ⟨?_, id, Replenisher.noConfusion, rfl⟩
    simp only [Replenisher.holdsToken, Bool.toNat_true, Bool.toNat_false]
    omega
  case h_8 => cases h

/-! ## The invariant -/

/-- `idle` has been closed. -/
def Closer.pastStopping : Closer → Bool
  | .notStarted | .stopping => false
  | _ => true

/-- Every token belongs to a borrowed or idle instance or to one on its way, and there are no more of them than
`MaxSize`. -/
structure Inv (p : Pool) : Prop where
  tokens : p.tokens =
    p.borrows.countP Borrow.holdsToken + p.idle + p.replenisher.holdsToken.toNat + p.closer.isLive.toNat
  tokens_le : p.tokens ≤ p.cfg.maxSize
  maxSize_pos : 0 < p.cfg.maxSize
  borrowed : p.borrowed = p.borrows.countP Borrow.isCounted
  stopped : p.closer.pastStopping = true → p.replenisher = .done ∧ p.idleClosed = true
  swept : p.closer = .finished → p.idle = 0
  draining : ∀ d ∈ p.drainers, p.draining = true
  closed : ∀ d ∈ p.drainers, d ≠ .entered → p.closer = .finished

theorem Inv.init (cfg : PoolConfig) : Inv (NewInstancePool cfg) where
  tokens := rfl
  tokens_le := Nat.zero_le _
  maxSize_pos := by
    simp only [NewInstancePool, PoolConfig.withDefaults]
    split <;> omega
  borrowed := rfl
  stopped := by intro h; cases h
  swept := by intro h; cases h
  draining := by intro d hd; cases hd
  closed := by intro d hd; cases hd

/-- A step of `Borrow` keeps the accounts. -/
theorem Inv.borrowStep (hp : Inv p) {b : Nat} (hb : p.borrows[b]? = some pc)
    (h : BorrowEffect p p' pc pc') : Inv { p' with borrows := p'.borrows.set b pc' } := by
  have htokens := Processes.countP_set Borrow.holdsToken pc' hb
  have hcounted := Processes.countP_set Borrow.isCounted pc' hb
  have heff := h.tokens
  have hbor := h.borrowed
  have hle := h.tokens_le hp.tokens_le
  have hidle := h.idle_le
  obtain ⟨tokens', idle', borrowed', hrest⟩ :
      ∃ tokens idle borrowed, p' = { p with tokens := tokens, idle := idle, borrowed := borrowed } := ⟨_, _, _, h.rest⟩
  subst hrest
  have htok := hp.tokens
  have hbo := hp.borrowed
  constructor
  case tokens =>
    show tokens' = (p.borrows.set b pc').countP Borrow.holdsToken + idle' + p.replenisher.holdsToken.toNat +
      p.closer.isLive.toNat
    dsimp only at heff
    omega
  case tokens_le => exact hle
  case maxSize_pos => exact hp.maxSize_pos
  case borrowed =>
    show borrowed' = ((p.borrows.set b pc').countP Borrow.isCounted : Int)
    dsimp only at hbor
    omega
  case stopped => exact hp.stopped
  case swept =>
    intro hc
    have hzero := hp.swept hc
    show idle' = 0
    dsimp only at hidle
    omega
  case draining => exact hp.draining
  case closed => exact hp.closed

theorem Inv.replenish (hp : Inv p) {pc' : Replenisher} (h : ReplenishEffect p p' p.replenisher pc') :
    Inv { p' with replenisher := pc' } := by
  have heff := h.tokens
  have hle := h.tokens_le hp.tokens_le
  have hrunning := h.running
  obtain ⟨tokens', idle', hrest⟩ : ∃ tokens idle, p' = { p with tokens := tokens, idle := idle } := ⟨_, _, h.rest⟩
  subst hrest
  have htok := hp.tokens
  -- the channel is open while the loop runs
  have hopen : p.closer.pastStopping = false := by
    by_contra hpast
    exact hrunning (hp.stopped (by simpa using hpast)).1
  constructor
  case tokens =>
    show tokens' = p.borrows.countP Borrow.holdsToken + idle' + pc'.holdsToken.toNat + p.closer.isLive.toNat
    dsimp only at heff
    omega
  case tokens_le => exact hle
  case maxSize_pos => exact hp.maxSize_pos
  case borrowed => exact hp.borrowed
  case stopped =>
    intro hpast
    exact absurd (hopen.symm.trans hpast) (by simp)
  case swept =>
    intro hc
    have hc' : p.closer = .finished := hc
    rw [hc'] at hopen
    cases hopen
  case draining => exact hp.draining
  case closed => exact hp.closed

/-- Until `closeIdle` has finished, no call of `DrainAndClose` has gone past it. -/
theorem Inv.all_entered (hp : Inv p) (hc : p.closer ≠ .finished) : ∀ d ∈ p.drainers, d = .entered := by
  intro d hd
  by_contra hne
  exact hc (hp.closed d hd hne)

theorem Inv.closeStep (hp : Inv p) (h : p.closeStep p.closer = some p') : Inv p' := by
  have htok := hp.tokens
  unfold Pool.closeStep at h
  split at h
  case h_1 | h_5 => cases h
  case h_2 hc =>
    have hentered := hp.all_entered (by rw [hc]; exact Closer.noConfusion)
    split at h <;> cases h
    rename_i hdone
    rw [hc] at htok
    refine ⟨?_, hp.tokens_le, hp.maxSize_pos, hp.borrowed, fun _ => ⟨hdone, rfl⟩, fun hf => Closer.noConfusion hf,
      hp.draining, ?_⟩
    · exact htok
    · intro d hd hne
      exact absurd (hentered d hd) hne
  case h_3 hc =>
    have hstopped := hp.stopped (by rw [hc]; rfl)
    have hentered := hp.all_entered (by rw [hc]; exact Closer.noConfusion)
    rw [hc] at htok
    simp only [Closer.isLive, Bool.toNat_false] at htok
    split at h
    · cases h
      refine ⟨?_, hp.tokens_le, hp.maxSize_pos, hp.borrowed, fun _ => hstopped, fun hf => Closer.noConfusion hf,
        hp.draining, ?_⟩
      · simp only [Closer.isLive, Bool.toNat_true]
        omega
      · intro d hd hne
        exact absurd (hentered d hd) hne
    · cases h
      refine ⟨htok, hp.tokens_le, hp.maxSize_pos, hp.borrowed, fun _ => hstopped, ?_, hp.draining, fun _ _ _ => rfl⟩
      intro _
      show p.idle = 0
      omega
  case h_4 hc =>
    have hstopped := hp.stopped (by rw [hc]; rfl)
    have hentered := hp.all_entered (by rw [hc]; exact Closer.noConfusion)
    rw [hc] at htok
    simp only [Closer.isLive, Bool.toNat_true] at htok
    split at h <;> cases h
    refine ⟨?_, Nat.le_trans (Nat.sub_le ..) hp.tokens_le, hp.maxSize_pos, hp.borrowed, fun _ => hstopped,
      fun hf => Closer.noConfusion hf, hp.draining, ?_⟩
    · simp only [Closer.isLive, Bool.toNat_false]
      omega
    · intro d hd hne
      exact absurd (hentered d hd) hne

/-- The calls of `DrainAndClose` change among themselves. -/
theorem Inv.drainers (hp : Inv p) {ds : List Drainer} (hdrain : ∀ d ∈ ds, p.draining = true)
    (hclosed : ∀ d ∈ ds, d ≠ .entered → p.closer = .finished) : Inv { p with drainers := ds } :=
  ⟨hp.tokens, hp.tokens_le, hp.maxSize_pos, hp.borrowed, hp.stopped, hp.swept, hdrain, hclosed⟩

/-- A call that has seen `closeIdle` return goes on. -/
theorem Inv.setDrainer (hp : Inv p) {d : Nat} {pc pc' : Drainer} (hd : p.drainers[d]? = some pc)
    (hfin : p.closer = .finished) : Inv { p with drainers := p.drainers.set d pc' } := by
  have hmem := mem_of_getElem? hd
  refine hp.drainers ?_ fun _ _ _ => hfin
  intro _ _
  exact hp.draining pc hmem

/-- Every event keeps the accounts. -/
theorem Inv.step (hp : Inv p) {e : Event} (h : step p e = some p') : Inv p' := by
  cases e with
  | borrow =>
    cases h
    refine ⟨?_, hp.tokens_le, hp.maxSize_pos, ?_, hp.stopped, hp.swept, hp.draining, hp.closed⟩
    · rw [Processes.countP_append_singleton, hp.tokens]
      split <;> rfl
    · rw [Processes.countP_append_singleton, hp.borrowed]
      split <;> rfl
  | borrowStep b e =>
    rw [InstancePool.step] at h
    split at h
    · cases h
    rename_i pc hb
    split at h
    · cases h
    rename_i p₁ pc' hstep
    cases h
    -- what the step does to the counters is all that the invariant needs of it
    exact hp.borrowStep hb (borrowEffect_of_borrowStep hstep)
  | replenish e =>
    rw [InstancePool.step] at h
    split at h
    · cases h
    rename_i p₁ pc' hstep
    cases h
    exact hp.replenish (replenishEffect_of_replenishStep hstep)
  | drain =>
    cases h
    refine ⟨hp.tokens, hp.tokens_le, hp.maxSize_pos, hp.borrowed, hp.stopped, hp.swept, fun _ _ => rfl, ?_⟩
    intro d hd hne
    rcases mem_append.mp hd with hd | hd
    · exact hp.closed d hd hne
    · exact absurd (mem_singleton.mp hd) hne
  | startClose d =>
    rw [InstancePool.step] at h
    split at h <;> cases h
    rename_i hc
    have htok := hp.tokens
    rw [hc.2] at htok
    refine ⟨htok, hp.tokens_le, hp.maxSize_pos, hp.borrowed, fun hpast => Bool.noConfusion hpast,
      fun hf => Closer.noConfusion hf,
      hp.draining, ?_⟩
    intro d' hd' hne
    -- nobody has left `closeIdle` before its body has run
    exact absurd (hp.all_entered (by rw [hc.2]; exact Closer.noConfusion) d' hd') hne
  | closeStep => exact hp.closeStep h
  | closed d =>
    rw [InstancePool.step] at h
    split at h <;> cases h
    rename_i hc
    exact hp.setDrainer hc.1 hc.2
  | poll d =>
    rw [InstancePool.step] at h
    split at h
    · rename_i hd
      split at h
      · cases h
        exact hp.setDrainer hd (hp.closed _ (mem_of_getElem? hd) Drainer.noConfusion)
      · cases h
        exact hp
    · cases h
  | timeout d =>
    rw [InstancePool.step] at h
    split at h <;> cases h
    rename_i hd
    exact hp.setDrainer hd (hp.closed _ (mem_of_getElem? hd) Drainer.noConfusion)

/-! ## Accounting -/

theorem countP_holdsToken (bs : List Borrow) :
    bs.countP Borrow.holdsToken = bs.countP Borrow.isLive + bs.countP (fun b => b = .releasing) := by
  induction bs with
  | nil => rfl
  | cons b bs ih =>
    rw [countP_cons, countP_cons, countP_cons, ih]
    have hb : (if b.holdsToken = true then 1 else 0) =
        (if b.isLive = true then 1 else 0) + (if decide (b = .releasing) = true then 1 else 0) := by
      cases b <;> rfl
    omega

variable {b : Borrow}

theorem Borrow.eq_releasing (hholds : b.holdsToken = true) (hlive : b.isLive = false) : b = .releasing := by
  cases b with
  | releasing => rfl
  | _ => simp [Borrow.holdsToken, Borrow.isLive] at hholds hlive

theorem Replenisher.holdsToken_eq (r : Replenisher) :
    r.holdsToken.toNat = r.isLive.toNat + (decide (r = .releasing)).toNat := by
  cases r <;> rfl

/-- The instances that are live are accounted for by tokens. -/
theorem Inv.accounted (hp : Inv p) : Accounted p := by
  refine ⟨?_, hp.tokens_le⟩
  rw [hp.tokens, countP_holdsToken, Replenisher.holdsToken_eq, Pool.live, Pool.failing]
  omega

/-! ## After a drain -/

/-- The pool is closed, and whoever is still in `Borrow` gets nothing. -/
structure Drained (p : Pool) : Prop where
  draining : p.draining = true
  idleClosed : p.idleClosed = true
  idle : p.idle = 0
  replenisher : p.replenisher = .done
  closer : p.closer = .finished
  borrows : ∀ b ∈ p.borrows, b.isLive = false ∧ b ≠ .waiting

theorem Drained.live (hp : Drained p) : p.live = 0 := by
  have hborrows : p.borrows.countP Borrow.isLive = 0 := by
    rw [countP_eq_zero]
    intro b hb
    rw [(hp.borrows b hb).1]
    exact Bool.noConfusion
  rw [Pool.live, hborrows, hp.idle, hp.replenisher, hp.closer]
  rfl

/-- A `Borrow` of a drained pool only fails or ends. -/
theorem Drained.borrowStep (hp : Drained p) {e : BorrowEvent}
    (hpc : pc.isLive = false ∧ pc ≠ .waiting) (h : p.borrowStep pc e = some (p', pc')) :
    (pc'.isLive = false ∧ pc' ≠ .waiting) ∧ p'.idle = 0 ∧ p'.draining = true ∧ p'.idleClosed = true ∧
      p'.replenisher = .done ∧ p'.closer = .finished ∧ p'.borrows = p.borrows := by
  obtain ⟨hlive, hwaiting⟩ := hpc
  unfold Pool.borrowStep at h
  split at h
  case h_1 =>
    rw [if_neg (by rw [hp.idle]; exact Nat.lt_irrefl 0), if_pos hp.idleClosed] at h
    cases h
    exact ⟨⟨rfl, Borrow.noConfusion⟩, hp.idle, hp.draining, hp.idleClosed, hp.replenisher, hp.closer, rfl⟩
  case h_2 | h_3 | h_4 => exact absurd rfl hwaiting
  case h_5 | h_7 | h_8 | h_9 => cases hlive
  case h_6 =>
    split at h <;> cases h
    exact ⟨⟨rfl, Borrow.noConfusion⟩, hp.idle, hp.draining, hp.idleClosed, hp.replenisher, hp.closer, rfl⟩
  case h_10 =>
    cases h
    exact ⟨⟨rfl, Borrow.noConfusion⟩, hp.idle, hp.draining, hp.idleClosed, hp.replenisher, hp.closer, rfl⟩
  case h_11 => cases h

/-- Nothing comes to life in a drained pool. -/
theorem Drained.step (hp : Drained p) {e : Event} (h : step p e = some p') : Drained p' := by
  cases e with
  | borrow =>
    cases h
    refine ⟨hp.draining, hp.idleClosed, hp.idle, hp.replenisher, hp.closer, ?_⟩
    intro b hb
    rcases mem_append.mp hb with hb | hb
    · exact hp.borrows b hb
    · rw [mem_singleton.mp hb, if_pos hp.draining]
      -- a new `Borrow` is refused at once
      exact ⟨rfl, Borrow.noConfusion⟩
  | borrowStep b e =>
    rw [InstancePool.step] at h
    split at h
    · cases h
    rename_i pc hb
    split at h
    · cases h
    rename_i p₁ pc' hstep
    cases h
    obtain ⟨hpc', hidle, hdraining, hclosed, hrepl, hcloser, hborrows⟩ :=
      hp.borrowStep (hp.borrows pc (mem_of_getElem? hb)) hstep
    refine ⟨hdraining, hclosed, hidle, hrepl, hcloser, ?_⟩
    intro b' hb'
    rw [hborrows] at hb'
    rcases mem_or_eq_of_mem_set hb' with hb' | rfl
    · exact hp.borrows b' hb'
    · exact hpc'
  | replenish e =>
    rw [InstancePool.step] at h
    split at h
    · cases h
    · rename_i p₁ pc' hstep
      -- the goroutine has stopped, so it takes no step
      exact absurd hp.replenisher (replenishEffect_of_replenishStep hstep).running
  | drain =>
    cases h
    exact ⟨rfl, hp.idleClosed, hp.idle, hp.replenisher, hp.closer, hp.borrows⟩
  | startClose d =>
    rw [InstancePool.step] at h
    split at h
    · rename_i hc
      exact absurd (hp.closer.symm.trans hc.2) Closer.noConfusion
    · cases h
  | closeStep =>
    rw [InstancePool.step, hp.closer] at h
    cases h
  | closed d | timeout d =>
    rw [InstancePool.step] at h
    split at h <;> cases h
    exact ⟨hp.draining, hp.idleClosed, hp.idle, hp.replenisher, hp.closer, hp.borrows⟩
  | poll d =>
    rw [InstancePool.step] at h
    split at h
    · split at h
      · cases h
        exact ⟨hp.draining, hp.idleClosed, hp.idle, hp.replenisher, hp.closer, hp.borrows⟩
      · cases h
        exact hp
    · cases h

/-- What `DrainAndClose` has seen when it returns `nil`: nothing is idle, the loop has ended and nobody is counted. -/
structure SeesZero (p : Pool) : Prop extends Inv p where
  finished : p.closer = .finished
  isDraining : p.draining = true
  zero : p.borrowed = 0

theorem SeesZero.not_counted (hp : SeesZero p) : ∀ b ∈ p.borrows, b.isCounted = false := by
  have hzero : p.borrows.countP Borrow.isCounted = 0 := by
    have hborrowed := hp.borrowed
    rw [hp.zero] at hborrowed
    omega
  intro b hb
  simpa using countP_eq_zero.mp hzero b hb

/-- A pool without borrows that are not counted yet is drained once the counter is 0. -/
theorem SeesZero.drained (hp : SeesZero p) (h : ∀ b ∈ p.borrows, ¬ b.Uncounted) : Drained p := by
  obtain ⟨hdone, hclosed⟩ := hp.stopped (by rw [hp.finished]; rfl)
  refine ⟨hp.isDraining, hclosed, hp.swept hp.finished, hdone, hp.finished, ?_⟩
  intro b hb
  have hcounted := hp.not_counted b hb
  have huncounted := h b hb
  cases b <;> first
    | exact ⟨rfl, Borrow.noConfusion⟩
    | exact absurd trivial huncounted
    | cases hcounted

theorem live_pos_of_mem (hb : b ∈ p.borrows) (hlive : b.isLive = true) : 0 < p.live := by
  have hpos : 0 < p.borrows.countP Borrow.isLive := countP_pos_iff.mpr ⟨b, hb, hlive⟩
  rw [Pool.live]
  omega

/-- A waiting `Borrow` takes a free token and creates an instance. -/
theorem exists_live_of_free {i : Nat} (hi : p.borrows[i]? = some .waiting) (hfree : p.tokens < p.cfg.maxSize) :
    ∃ u, step p (.borrowStep i .takeToken) = some u ∧ 0 < u.live := by
  refine ⟨{ p with tokens := p.tokens + 1, borrows := p.borrows.set i .instantiating }, ?_, ?_⟩
  · rw [InstancePool.step, hi]
    dsimp only
    rw [Pool.borrowStep, if_pos hfree]
  · exact live_pos_of_mem (b := .instantiating) (Processes.mem_set_self _ hi) rfl

/-- A `Borrow` that is not counted can still come to an instance. -/
theorem SeesZero.exists_live (hp : SeesZero p) (hb : b ∈ p.borrows) (hun : b.Uncounted) :
    ∃ es u, run step p es = some u ∧ 0 < u.live := by
  cases b
  case instantiating | handedOver => exact ⟨[], p, rfl, live_pos_of_mem hb rfl⟩
  case waiting =>
    obtain ⟨i, hi⟩ := mem_iff_getElem?.mp hb
    by_cases hfree : p.tokens < p.cfg.maxSize
    · obtain ⟨u, hu, hlive⟩ := exists_live_of_free hi hfree
      exact ⟨[.borrowStep i .takeToken], u, run_cons.mpr ⟨u, hu, rfl⟩, hlive⟩
    -- all tokens are taken, by calls that are not counted either
    have hmax := hp.maxSize_pos
    have htokens := hp.tokens
    obtain ⟨hdone, -⟩ := hp.stopped (by rw [hp.finished]; rfl)
    rw [hp.swept hp.finished, hdone, hp.finished] at htokens
    simp only [Replenisher.holdsToken, Closer.isLive, Bool.toNat_false] at htokens
    have hpos : 0 < p.borrows.countP Borrow.holdsToken := by omega
    obtain ⟨b', hb', hholds⟩ := countP_pos_iff.mp hpos
    cases hlive' : b'.isLive with
    | true => exact ⟨[], p, rfl, live_pos_of_mem hb' hlive'⟩
    | false =>
      obtain rfl := Borrow.eq_releasing hholds hlive'
      obtain ⟨j, hj⟩ := mem_iff_getElem?.mp hb'
      have hji : j ≠ i := by
        rintro rfl
        rw [hi] at hj
        cases hj
      -- the failed attempt gives its token back, and the waiting call takes it
      have hpos' : 0 < p.tokens := by omega
      obtain ⟨u, hu, hlive⟩ := exists_live_of_free
        (p := { p with tokens := p.tokens - 1, borrows := p.borrows.set j (.failed .instantiate) }) (i := i)
        (by rw [getElem?_set_ne hji, hi]) (by show p.tokens - 1 < p.cfg.maxSize; have := hp.tokens_le; omega)
      refine ⟨[.borrowStep j .release, .borrowStep i .takeToken], u, ?_, hlive⟩
      refine run_cons.mpr ⟨_, ?_, run_cons.mpr ⟨u, hu, rfl⟩⟩
      rw [InstancePool.step, hj]
      dsimp only
      rw [Pool.borrowStep, if_pos hpos']
  all_goals exact hun.elim

/-! ## Every run -/

/-- **Accounting in every run, and when a drain is final.** The tokens are those of the live instances and of failed
attempts, and at most `MaxSize`. When `DrainAndClose` returns `nil`, no instance is live then or later exactly if no
`Borrow` is past its first look at `idle` without being counted. -/
theorem drained_iff (cfg : PoolConfig) (es : List Event) {p : Pool}
    (hrun : run step (NewInstancePool cfg) es = some p) :
    Accounted p ∧ ∀ d p', p.drainers[d]? = some .polling → p.borrowed = 0 → step p (.poll d) = some p' →
      ((∀ es' u, run step p' es' = some u → u.live = 0) ↔ ∀ b ∈ p.borrows, ¬ b.Uncounted) := by
  have hinv : Inv p := run_keeps Inv (fun _ _ _ hi hstep => hi.step hstep) (Inv.init cfg) hrun
  refine ⟨hinv.accounted, ?_⟩
  intro d p' hd hzero hpoll
  have hmem := mem_of_getElem? hd
  have hfin := hinv.closed _ hmem Drainer.noConfusion
  have hinv' := hinv.step hpoll
  rw [InstancePool.step, if_pos hd, if_pos hzero] at hpoll
  cases hpoll
  have hsees : SeesZero { p with drainers := p.drainers.set d .returnedNil } :=
    ⟨hinv', hfin, hinv.draining _ hmem, hzero⟩
  constructor
  · intro hlive b hb hun
    obtain ⟨es', u, hu, hpos⟩ := hsees.exists_live hb hun
    have := hlive es' u hu
    omega
  · intro h es' u hu
    exact (run_keeps Drained (fun _ _ _ hi hstep => hi.step hstep) (hsees.drained h) hu).live

/-- An instance is borrowed and given back before the pool is drained, another `Borrow` comes too late. -/
def orderlyDrain : List Event :=
  [.borrow, .borrowStep 0 .firstSelect, .borrowStep 0 .takeToken, .replenish .takeToken,
    .replenish (.instantiated true),
    .replenish .send, .borrowStep 0 (.instantiated true), .borrowStep 0 .afterBorrow, .borrow, .drain, .startClose 0,
    .replenish .stop, .closeStep, .closeStep, .closeStep, .closeStep, .closed 0, .borrowStep 0 .return_,
    .borrowStep 0 .release, .borrowStep 0 .uncount, .borrow]

theorem drained_orderly :
    ∃ p p', run step (NewInstancePool ⟨2, 2⟩) orderlyDrain = some p ∧ step p (.poll 0) = some p' ∧
      ∀ es' u, run step p' es' = some u → u.live = 0 := by
  refine ⟨_, _, rfl, rfl, ?_⟩
  refine ((drained_iff ⟨2, 2⟩ orderlyDrain rfl).2 0 _ rfl rfl rfl).mpr ?_
  decide

/-- A `Borrow` waits in its second `select` while the pool is drained. -/
def drainPastWaiting : List Event :=
  [.borrow, .borrowStep 0 .firstSelect, .drain, .startClose 0, .replenish .stop, .closeStep, .closeStep, .closed 0]

theorem borrow_survives_drain :
    ¬ ∀ (cfg : PoolConfig) (es : List Event) (p p' : Pool) (d : Nat), run step (NewInstancePool cfg) es = some p →
      p.drainers[d]? = some .polling → p.borrowed = 0 → step p (.poll d) = some p' →
      ∀ es' u, run step p' es' = some u → u.live = 0 := by
  intro h
  have hlive := h ⟨1, 1⟩ drainPastWaiting _ _ 0 rfl rfl rfl rfl
    [.borrowStep 0 .takeToken, .borrowStep 0 (.instantiated true), .borrowStep 0 .afterBorrow] _ rfl
  revert hlive
  decide

end GoErp.InstancePool
