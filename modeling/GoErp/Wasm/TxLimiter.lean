import GoErp.Lib.Processes
import GoErp.Lib.Run

/-!
# `Wasm.TxLimiter` — the slots of open transactions

`TransactionLimiter` (`wasm/txlimiter.go`) under `host.db.begin`, `commit` and `rollback` (`host_db.go`), the managed
transactions (`managed_transaction.go`) and `RollbackAll` (`context.go`), for any number of module contexts. A begin is
two steps: up to `TryAcquire`, and from there to its return. An end is several: the entry is removed from the map
(`RollbackAll` removes all of them at once), and the slots are released one by one after that, so other contexts can
see a count above the number of registered transactions. A context makes one call at a time.
-/

namespace GoErp.TxLimiter

open Lib List

/-- An entry of a context's map; the engine ends managed transactions itself. -/
structure OpenTransaction where
  txID : String
  managed : Bool

/-- A module context, with the call it is in. -/
structure ModuleContext where
  transactions : List OpenTransaction
  /-- a begin that has its slot, and whether it is a managed one -/
  beginning : Option Bool
  /-- the transactions of an end in progress whose slot has not been released -/
  ending : Nat

structure Runtime where
  /-- the count of the limiter -/
  current : Int
  contexts : List ModuleContext

/-- What a begin can fail with once it has its slot. -/
inductive BeginError where
  | database
  | conn
  | beginTx
  | scope

/-- The steps of a context. -/
inductive Call where
  | begin (managed : Bool)
  /-- the rest of a begin, up to `RegisterTransaction` or to one of its failures -/
  | begun (result : Except BeginError String)
  | commit (txID : String) (ok : Bool)
  | rollback (txID : String)
  | managedCommit (txID : String) (ok : Bool)
  | managedRollback (txID : String)
  | rollbackAll
  /-- the `Release` of an end -/
  | release

/-- The context is in no call. -/
def ModuleContext.Idle (mc : ModuleContext) : Prop := mc.beginning = none ∧ mc.ending = 0

instance (mc : ModuleContext) : Decidable mc.Idle := inferInstanceAs (Decidable (_ ∧ _))

/-- `RemoveTransaction`, before the `Release`. -/
def ModuleContext.removeTransaction (mc : ModuleContext) (txID : String) : ModuleContext :=
  { mc with transactions := mc.transactions.eraseP (·.txID = txID), ending := 1 }

/-- `commit` and `rollback` up to their `Release`, whatever the database answers. -/
def ModuleContext.endTx (mc : ModuleContext) (txID : String) (byEngine : Bool) : ModuleContext :=
  match mc.transactions.find? (·.txID = txID) with
  | none => mc
  | some ot => if ot.managed ∧ ¬byEngine then mc else mc.removeTransaction txID

/-- A step of a context, with the count of the limiter. -/
def ModuleContext.call (mc : ModuleContext) (max current : Int) : Call → Option (Int × ModuleContext)
  | .begin managed =>
    if ¬mc.Idle then none
    else if mc.transactions ≠ [] then some (current, mc)
    -- `TryAcquire`
    else if current ≥ max then some (current, mc)
    else some (current + 1, { mc with beginning := some managed })
  | .begun result =>
    match mc.beginning, result with
    | none, _ => none
    | some _, .error _ => some (current - 1, { mc with beginning := none })
    | some managed, .ok txID =>
      some (current, { mc with transactions := ⟨txID, managed⟩ :: mc.transactions, beginning := none })
  | .commit txID _ | .rollback txID => if mc.Idle then some (current, mc.endTx txID false) else none
  | .managedCommit txID _ | .managedRollback txID => if mc.Idle then some (current, mc.endTx txID true) else none
  -- the map is emptied under its lock, the loop over its entries comes after
  | .rollbackAll =>
    if mc.Idle then some (current, { mc with transactions := [], ending := mc.transactions.length }) else none
  | .release => if mc.ending = 0 then none else some (current - 1, { mc with ending := mc.ending - 1 })

/-- A step of the context of a number. -/
def step (max : Int) (r : Runtime) (e : Nat × Call) : Option Runtime :=
  match r.contexts[e.1]? with
  | none => none
  | some mc => (mc.call max r.current e.2).map fun result => ⟨result.1, r.contexts.set e.1 result.2⟩

/-- The registered transactions and the begin in progress. -/
def ModuleContext.registered (mc : ModuleContext) : Nat := mc.transactions.length + mc.beginning.isSome.toNat

/-- The slots of a context: those of its transactions, of its begin and of its end in progress. -/
def ModuleContext.slots (mc : ModuleContext) : Nat := mc.registered + mc.ending

/-! ## What a step does -/

variable {mc mc' : ModuleContext} {max current current' : Int}

/-- A step changes the count by what its context has more or less. -/
structure Balanced (max current current' : Int) (mc mc' : ModuleContext) : Prop where
  count : current' + mc.slots = current + mc'.slots
  one : mc.slots ≤ 1 → mc'.slots ≤ 1
  bound : current' ≤ current ∨ current' ≤ max

theorem Balanced.refl : Balanced max current current mc mc := ⟨rfl, id, .inl (Int.le_refl _)⟩

/-- An end that has removed its entry still has the slot. -/
theorem slots_endTx (txID : String) (byEngine : Bool) (hidle : mc.Idle) :
    (mc.endTx txID byEngine).slots = mc.slots := by
  rw [ModuleContext.endTx]
  split
  · rfl
  rename_i ot hfind
  split
  · rfl
  have hlength := length_eraseP_of_mem (mem_of_find?_eq_some hfind) (find?_some hfind)
  have hpos := length_pos_of_mem (mem_of_find?_eq_some hfind)
  simp only [ModuleContext.removeTransaction, ModuleContext.slots, ModuleContext.registered, hlength, hidle.2]
  omega

/-- A step that leaves the count alone and keeps the context's slots. -/
theorem Balanced.of_slots_eq (h : mc'.slots = mc.slots) : Balanced max current current mc mc' :=
  ⟨by rw [h], by rw [h]; exact id, .inl (Int.le_refl _)⟩

/-- **Every step is balanced.** -/
theorem balanced_of_call {c : Call} (h : mc.call max current c = some (current', mc')) :
    Balanced max current current' mc mc' := by
  cases c with
  | begin managed =>
    rw [ModuleContext.call] at h
    split at h
    · cases h
    rename_i hidle
    obtain ⟨hbeginning, hending⟩ : mc.Idle := not_not.mp hidle
    split at h
    · cases h
      exact .refl
    rename_i hopen
    split at h <;> cases h
    · exact .refl
    -- the slot was free, and the context had none
    obtain ⟨transactions, beginning, ending⟩ := mc
    obtain rfl : transactions = [] := not_not.mp hopen
    obtain rfl : beginning = none := hbeginning
    obtain rfl : ending = 0 := hending
    exact ⟨by simp [ModuleContext.slots, ModuleContext.registered], fun _ => Nat.le_refl 1, .inr (by omega)⟩
  | begun result =>
    obtain ⟨transactions, beginning, ending⟩ := mc
    cases beginning with
    | none => cases h
    | some managed =>
      cases result <;> cases h
      all_goals
        refine ⟨?_, ?_, .inl (by omega)⟩
        all_goals simp only [ModuleContext.slots, ModuleContext.registered, length_cons, Option.isSome,
          Bool.toNat_true, Bool.toNat_false]
        all_goals omega
  | commit txID ok | rollback txID | managedCommit txID ok | managedRollback txID =>
    rw [ModuleContext.call] at h
    split at h
    · rename_i hidle
      obtain ⟨rfl, rfl⟩ := Prod.mk.inj (Option.some.inj h)
      exact .of_slots_eq (slots_endTx txID _ hidle)
    · cases h
  | rollbackAll =>
    rw [ModuleContext.call] at h
    split at h
    · rename_i hidle
      cases h
      apply Balanced.of_slots_eq
      simp only [ModuleContext.slots, ModuleContext.registered, length_nil, hidle.2]
      omega
    · cases h
  | release =>
    rw [ModuleContext.call] at h
    split at h
    · cases h
    · cases h
      refine ⟨?_, ?_, .inl (by omega)⟩
      all_goals
        simp only [ModuleContext.slots, ModuleContext.registered]
        omega

/-! ## Every run -/

/-- The accounting of the limiter. -/
structure Inv (max : Int) (r : Runtime) : Prop where
  count : r.current = (r.contexts.map ModuleContext.slots).sum
  bound : 0 ≤ max → r.current ≤ max
  one : ∀ mc ∈ r.contexts, mc.slots ≤ 1

variable {r r' : Runtime}

theorem Inv.step {e : Nat × Call} (hr : Inv max r) (h : step max r e = some r') : Inv max r' := by
  rw [TxLimiter.step] at h
  split at h
  · cases h
  rename_i mc hmc
  obtain ⟨⟨current', mc'⟩, hcall, rfl⟩ := Option.map_eq_some_iff.mp h
  have heff := balanced_of_call hcall
  constructor
  case count =>
    have hsum := Processes.sum_map_set ModuleContext.slots mc' hmc
    have heq := heff.count
    have hcount := hr.count
    show current' = ((r.contexts.set e.1 mc').map ModuleContext.slots).sum
    omega
  case bound =>
    intro hmax
    have hle := hr.bound hmax
    rcases heff.bound with hless | hbound
    · exact Int.le_trans hless hle
    · exact hbound
  case one =>
    intro mc₁ hmem
    rcases mem_or_eq_of_mem_set hmem with hmem | rfl
    · exact hr.one mc₁ hmem
    · exact heff.one (hr.one mc (mem_of_getElem? hmc))

def NewRuntime (n : Nat) : Runtime := ⟨0, List.replicate n ⟨[], none, 0⟩⟩

/-- **The count is that of the open transactions, the begins in progress and the ends in progress**, never negative or
above the maximum, and a context has one transaction at most. -/
theorem slots_exact (max : Int) (n : Nat) (calls : List (Nat × Call))
    (hrun : Run.run (step max) (NewRuntime n) calls = some r) :
    r.current = (r.contexts.map ModuleContext.slots).sum ∧ 0 ≤ r.current ∧ (0 ≤ max → r.current ≤ max) ∧
      ∀ mc ∈ r.contexts, mc.transactions.length ≤ 1 := by
  have hinit : Inv max (NewRuntime n) := by
    refine ⟨by simp [NewRuntime, ModuleContext.slots, ModuleContext.registered], id, ?_⟩
    intro mc hmem
    rw [eq_of_mem_replicate hmem]
    exact Nat.zero_le 1
  have hinv : Inv max r := Run.run_keeps (Inv max) (fun _ _ _ hr hstep => hr.step hstep) hinit hrun
  have hcount := hinv.count
  refine ⟨hcount, by omega, hinv.bound, ?_⟩
  intro mc hmem
  have hone := hinv.one mc hmem
  simp only [ModuleContext.slots, ModuleContext.registered] at hone
  omega

/-- Two contexts fill the limiter and a third is refused; it is refused again after the first has removed its
transaction, whose slot is not released yet. -/
def twoSlots : List (Nat × Call) :=
  [(0, .begin false), (1, .begin true), (2, .begin false), (0, .begun (.ok "a")), (1, .begun (.ok "b")),
    (0, .commit "a" false), (2, .begin false)]

theorem slots_exact_two : ∃ r, Run.run (step 2) (NewRuntime 3) twoSlots = some r ∧
    r.contexts.map (·.transactions.length) = [0, 1, 0] ∧ r.contexts.map (·.ending) = [1, 0, 0] ∧ r.current = 2 ∧
      r.current = (r.contexts.map ModuleContext.slots).sum :=
  ⟨_, rfl, rfl, rfl, rfl, (slots_exact 2 3 twoSlots rfl).1⟩

/-- The count of registered transactions and begins alone is too small between the two steps of an end. -/
theorem slot_outlives_entry : ¬ ∀ (max : Int) (n : Nat) (calls : List (Nat × Call)) (r : Runtime),
    Run.run (step max) (NewRuntime n) calls = some r →
      r.current = (r.contexts.map ModuleContext.registered).sum := by
  intro h
  have hcount := h 2 3 twoSlots _ rfl
  revert hcount
  decide

end GoErp.TxLimiter
