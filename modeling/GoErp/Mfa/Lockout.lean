import GoErp.Lib.Run

/-!
# `Mfa.Lockout` — the failure counter and concurrent verification requests

`Handler.ServeHTTP` (`auth/mfaverify/handler.go`) tests the lockout marker, takes the account lock, evaluates the
code, and counts a wrong one with `Counter.RecordFailure` (`mfa/lockout/lockout.go`): four steps, of which only the
evaluation is under the lock. `wrong` counts the codes evaluated as wrong since the last reset.

A request that has passed the test is not tested again, so any number of requests that pass it together may each guess
once. With requests one after the other whose wrong codes are recorded (`Alone`), the counter is `wrong` itself.
-/

namespace GoErp.Mfa.Lockout

open Lib.Run List

def maxAttempts : Nat := 5

/-- The value of the key: a number, or the marker. `INCR` fails on the marker. -/
inductive Value where
  | count (n : Nat)
  | locked
deriving DecidableEq, Repr

/-- Where a request is in `ServeHTTP`. -/
inductive Request where
  | arrived
  /-- it has found no lockout marker -/
  | tested
  /-- it holds the account lock -/
  | holding
  /-- the code has been evaluated, the transaction is still open -/
  | judged (valid : Bool)
  /-- before `RecordFailure` -/
  | rejected
  /-- after the `INCR` of `RecordFailure`, which returned `n` -/
  | counted (n : Nat)
  /-- before `Reset` -/
  | accepted
  | answered
deriving DecidableEq, Repr

/-- The counter's key, the account lock and the requests. -/
structure System where
  key : Option Value
  /-- the request that holds the account lock -/
  account : Option Nat
  requests : List Request
  /-- ghost: the codes evaluated as wrong since the last reset -/
  wrong : Nat
deriving DecidableEq, Repr

def System.init : System := ⟨none, none, [], 0⟩

/-- The steps of the requests. -/
inductive Event where
  | arrive
  /-- `Counter.Locked` -/
  | test (i : Nat)
  /-- `LockUserTx` -/
  | lockUser (i : Nat)
  | evaluate (i : Nat) (valid : Bool)
  | commit (i : Nat)
  /-- `IncrWithTTL` -/
  | incr (i : Nat)
  /-- the end of `RecordFailure` -/
  | setMarker (i : Nat)
  | reset (i : Nat)
  /-- a call of the request returns an error; its transaction is rolled back -/
  | fail (i : Nat)
deriving DecidableEq, Repr

/-- The request is not between its lockout test and its answer. -/
def Request.idle : Request → Bool
  | .arrived | .answered => true
  | _ => false

/-- A wrong code has been evaluated and is not recorded yet. -/
def Request.owesRecord : Request → Bool
  | .judged false | .rejected | .counted _ => true
  | _ => false

def System.goto (s : System) (i : Nat) (r : Request) : System := { s with requests := s.requests.set i r }

/-- `Locked` -/
def System.locked (s : System) : Bool := s.key == some .locked

/-- One step of one request; only the account lock orders them. -/
def System.step (s : System) : Event → Option System
  | .arrive => some { s with requests := s.requests ++ [.arrived] }
  | .test i =>
    if s.requests[i]? = some .arrived then some (s.goto i (if s.locked then .answered else .tested)) else none
  | .lockUser i =>
    if s.requests[i]? = some .tested ∧ s.account = none then some { s.goto i .holding with account := some i }
    else none
  | .evaluate i valid =>
    if s.requests[i]? = some .holding then
      some { s.goto i (.judged valid) with wrong := if valid then s.wrong else s.wrong + 1 }
    else none
  | .commit i =>
    match s.requests[i]? with
    | some (.judged valid) => some { s.goto i (if valid then .accepted else .rejected) with account := none }
    | _ => none
  | .incr i =>
    if s.requests[i]? = some .rejected then
      match s.key with
      | none => some { s.goto i (.counted 1) with key := some (.count 1) }
      | some (.count n) => some { s.goto i (.counted (n + 1)) with key := some (.count (n + 1)) }
      -- the value is not an integer: `RecordFailure` fails and the request is answered with an error
      | some .locked => some (s.goto i .answered)
    else none
  | .setMarker i =>
    match s.requests[i]? with
    | some (.counted n) => some { s.goto i .answered with key := if maxAttempts ≤ n then some .locked else s.key }
    | _ => none
  | .reset i =>
    if s.requests[i]? = some .accepted then some { s.goto i .answered with key := none, wrong := 0 } else none
  | .fail i =>
    if (s.requests[i]?).any (!·.idle) then
      some { s.goto i .answered with account := if s.account = some i then none else s.account }
    else none

/-- A request is tested only while no other is between its test and its answer, and a request whose code was wrong
does not fail before it has recorded that. -/
def Alone (s : System) : Event → Prop
  | .test _ => ∀ r ∈ s.requests, r.idle = true
  | .fail i => (s.requests[i]?).any Request.owesRecord = false
  | _ => True

instance (s : System) (e : Event) : Decidable (Alone s e) := by
  unfold Alone
  cases e <;> infer_instance

/-! ## The invariant -/

/-- The number the key stands for. -/
def tally : Option Value → Nat
  | none => 0
  | some (.count n) => n
  | some .locked => maxAttempts

/-- The counter agrees with the wrong codes, and an unlocked counter has room. -/
def Settled (s : System) : Prop :=
  s.wrong = tally s.key ∧ (s.locked = false → s.wrong < maxAttempts)

/-- What the one request that is under way has still to do. -/
def Request.Owes (s : System) : Request → Prop
  | .tested | .holding | .judged true | .accepted => Settled s ∧ s.locked = false
  | .judged false | .rejected => s.wrong = tally s.key + 1 ∧ s.locked = false ∧ s.wrong ≤ maxAttempts
  | .counted n => s.key = some (.count n) ∧ s.wrong = n ∧ n ≤ maxAttempts
  | .arrived | .answered => Settled s

/-- At most one request is under way; `i` is it, or any other when there is none. -/
def Inv (s : System) : Prop :=
  ∃ i : Nat, (∀ (j : Nat) (r : Request), j ≠ i → s.requests[j]? = some r → r.idle = true) ∧
    ((s.requests[i]?).getD .answered).Owes s

variable {s : System}

theorem tally_le (h : Settled s) : s.wrong ≤ maxAttempts := by
  obtain ⟨hw, hroom⟩ := h
  by_cases hl : s.locked = true
  · have hk : s.key = some .locked := by simpa [System.locked] using hl
    rw [hw, hk]
    exact Nat.le_refl _
  · exact Nat.le_of_lt (hroom (by simpa using hl))

theorem Inv.wrong_le (h : Inv s) : s.wrong ≤ maxAttempts := by
  obtain ⟨i, -, hr⟩ := h
  generalize (s.requests[i]?).getD .answered = r at hr
  cases r with
  | arrived => exact tally_le hr
  | tested => exact tally_le hr.1
  | holding => exact tally_le hr.1
  | judged valid =>
    cases valid with
    | true => exact tally_le hr.1
    | false => exact hr.2.2
  | rejected => exact hr.2.2
  | counted n => exact hr.2.1 ▸ hr.2.2
  | accepted => exact tally_le hr.1
  | answered => exact tally_le hr

/-- A request that owes no record leaves a settled counter behind, wherever it ends. -/
theorem Request.settled_of_owes (r : Request) (hr : r.owesRecord = false) (h : r.Owes s) : Settled s := by
  cases r with
  | arrived => exact h
  | tested => exact h.1
  | holding => exact h.1
  | judged valid =>
    cases valid with
    | true => exact h.1
    | false => cases hr
  | rejected => cases hr
  | counted n => cases hr
  | accepted => exact h.1
  | answered => exact h

theorem inv_init : Inv System.init :=
  ⟨0, fun _ _ _ h => (by cases h), rfl, fun _ => (by decide : 0 < maxAttempts)⟩

/-- With nobody under way, the counter is settled. -/
theorem Inv.settled (h : Inv s) (hidle : ∀ r ∈ s.requests, r.idle = true) : Settled s := by
  obtain ⟨i, -, hr⟩ := h
  cases hi : s.requests[i]? with
  | none => simpa [hi, Request.Owes] using hr
  | some r =>
    have hr' : r.Owes s := by simpa [hi] using hr
    have := hidle r (mem_of_getElem? hi)
    cases r <;> first | exact hr' | simp [Request.idle] at this

/-- The request that takes a step is the one under way. -/
theorem Inv.owes (h : Inv s) {i : Nat} {r : Request} (hi : s.requests[i]? = some r) (hr : r.idle = false) :
    (∀ (j : Nat) (r : Request), j ≠ i → s.requests[j]? = some r → r.idle = true) ∧ r.Owes s := by
  obtain ⟨i', hothers, howes⟩ := h
  have hii : i = i' := by
    by_contra hne
    have := hothers i r hne hi
    simp [hr] at this
  subst hii
  exact ⟨hothers, by simpa [hi] using howes⟩

/-- A step of the request under way leaves it under way, with what it then owes. -/
theorem inv_of_owes {s' : System} {i : Nat} {r r' : Request} (hi : s.requests[i]? = some r)
    (hothers : ∀ (j : Nat) (r : Request), j ≠ i → s.requests[j]? = some r → r.idle = true)
    (hreq : s'.requests = s.requests.set i r') (howes : r'.Owes s') : Inv s' := by
  refine ⟨i, ?_, ?_⟩
  · intro j q hj hq
    rw [hreq, getElem?_set_ne (Ne.symm hj)] at hq
    exact hothers j q hj hq
  have hlt : i < s.requests.length := (List.getElem?_eq_some_iff.mp hi).1
  rw [hreq, getElem?_set_self hlt]
  exact howes

theorem inv_step {s' : System} {e : Event} (h : Inv s) (ha : Alone s e) (hs : s.step e = some s') : Inv s' := by
  cases e with
  | arrive =>
    obtain ⟨i, hothers, howes⟩ := h
    cases hs
    by_cases hi : i < s.requests.length
    · refine ⟨i, ?_, ?_⟩
      · intro j r hj hr
        by_cases hjl : j < s.requests.length
        · exact hothers j r hj (by rwa [getElem?_append_left hjl] at hr)
        rw [getElem?_append_right (by omega)] at hr
        rw [mem_singleton.mp (mem_of_getElem? hr)]
        rfl
      · rw [getElem?_append_left hi]
        exact howes
    · -- nobody was under way: the new request is as idle as the rest
      have hset : Settled s := by simpa [getElem?_eq_none (Nat.le_of_not_lt hi), Request.Owes] using howes
      refine ⟨s.requests.length, ?_, ?_⟩
      · intro j r hj hr
        have hjl : j < s.requests.length := by
          have := (List.getElem?_eq_some_iff.mp hr).1
          simp only [length_append, length_singleton] at this
          omega
        rw [getElem?_append_left hjl] at hr
        exact hothers j r (by omega) hr
      · rw [getElem?_concat_length]
        exact hset
  | test i =>
    have hset := h.settled ha
    simp only [System.step] at hs
    split at hs
    · rename_i hi
      cases hs
      refine inv_of_owes hi (fun j r _ hr => ha r (mem_of_getElem? hr)) rfl ?_
      cases hl : s.locked with
      | true => exact hset
      | false => exact ⟨hset, hl⟩
    · cases hs
  | lockUser i =>
    simp only [System.step] at hs
    split at hs
    · rename_i hi
      obtain ⟨hothers, howes⟩ := h.owes hi.1 rfl
      cases hs
      exact inv_of_owes hi.1 hothers rfl howes
    · cases hs
  | evaluate i valid =>
    simp only [System.step] at hs
    split at hs
    · rename_i hi
      obtain ⟨hothers, ⟨hwrong, hroom⟩, hl⟩ := h.owes hi rfl
      cases hs
      refine inv_of_owes hi hothers rfl ?_
      cases valid with
      | true => exact ⟨⟨hwrong, hroom⟩, hl⟩
      | false => exact ⟨congrArg (· + 1) hwrong, hl, hroom hl⟩
    · cases hs
  | commit i =>
    simp only [System.step] at hs
    split at hs
    · rename_i valid hi
      obtain ⟨hothers, howes⟩ := h.owes hi rfl
      cases hs
      refine inv_of_owes hi hothers rfl ?_
      cases valid <;> exact howes
    · cases hs
  | incr i =>
    simp only [System.step] at hs
    split at hs
    · rename_i hi
      obtain ⟨hothers, hwrong, hl, hle⟩ := h.owes hi rfl
      split at hs
      · rename_i hk
        cases hs
        simp only [hk, tally] at hwrong
        exact inv_of_owes hi hothers rfl ⟨rfl, hwrong, by decide⟩
      · rename_i n hk
        cases hs
        simp only [hk, tally] at hwrong
        exact inv_of_owes hi hothers rfl ⟨rfl, hwrong, hwrong ▸ hle⟩
      · rename_i hk
        simp [System.locked, hk] at hl
    · cases hs
  | setMarker i =>
    simp only [System.step] at hs
    split at hs
    · rename_i n hi
      obtain ⟨hothers, hk, hwrong, hle⟩ := h.owes hi rfl
      cases hs
      refine inv_of_owes hi hothers rfl ?_
      show s.wrong = tally (if maxAttempts ≤ n then some .locked else s.key) ∧
        (((if maxAttempts ≤ n then some .locked else s.key) == some .locked) = false → s.wrong < maxAttempts)
      by_cases hn : maxAttempts ≤ n
      · rw [if_pos hn]
        exact ⟨hwrong.trans (Nat.le_antisymm hle hn), by simp⟩
      · rw [if_neg hn, hk]
        exact ⟨hwrong, fun _ => by omega⟩
    · cases hs
  | reset i =>
    simp only [System.step] at hs
    split at hs
    · rename_i hi
      obtain ⟨hothers, -⟩ := h.owes hi rfl
      cases hs
      exact inv_of_owes hi hothers rfl ⟨rfl, fun _ => (by decide : 0 < maxAttempts)⟩
    · cases hs
  | fail i =>
    simp only [System.step] at hs
    split at hs
    · rename_i hany
      cases hi : s.requests[i]? with
      | none => simp [hi] at hany
      | some r =>
        have hidle : r.idle = false := by simpa [hi] using hany
        have hrecorded : r.owesRecord = false := by simpa [Alone, hi] using ha
        obtain ⟨hothers, howes⟩ := h.owes hi hidle
        cases hs
        exact inv_of_owes hi hothers rfl (r.settled_of_owes hrecorded howes)
    · cases hs

/-! ## Every run -/

/-- **At most `maxAttempts` codes are evaluated as wrong between two resets**, in every run in which requests
are tested one after the other and each wrong code is recorded. -/
theorem guess_limit (es : List Event) (hok : Along System.step Alone System.init es) {s : System}
    (hrun : run System.step System.init es = some s) : s.wrong ≤ maxAttempts :=
  (run_invariant (fun _ _ _ => inv_step) inv_init hok hrun).wrong_le

/-- One wrong guess, from the test to the answer. -/
def wrongGuess (i : Nat) : List Event :=
  [.arrive, .test i, .lockUser i, .evaluate i false, .commit i, .incr i, .setMarker i]

/-- Five wrong guesses one after the other, a request that fails before its code is evaluated among them, and one
that finds the marker. -/
def sequential : List Event :=
  wrongGuess 0 ++ [.arrive, .test 1, .lockUser 1, .fail 1] ++ [2, 3, 4, 5].flatMap wrongGuess ++ [.arrive, .test 6]

theorem guess_limit_sequential : ∃ s, run System.step System.init sequential = some s ∧ s.locked = true ∧
    s.wrong ≤ maxAttempts :=
  ⟨_, rfl, by decide, guess_limit sequential (by decide) rfl⟩

/-- Six requests pass the test together; each of them is then evaluated. -/
def concurrent : List Event :=
  List.replicate 6 .arrive ++ (List.range 6).map .test ++
    (List.range 6).flatMap fun i => [.lockUser i, .evaluate i false, .commit i]

theorem six_guesses : ¬ ∀ es s, run System.step System.init es = some s → s.wrong ≤ maxAttempts := by
  intro h
  have hrun : (run System.step System.init concurrent).map (·.wrong) = some 6 := by decide
  obtain ⟨s, hs, hwrong⟩ := Option.map_eq_some_iff.mp hrun
  have := h concurrent s hs
  rw [hwrong] at this
  exact absurd this (by decide)

end GoErp.Mfa.Lockout
