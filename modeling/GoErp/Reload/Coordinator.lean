import Mathlib.Order.Lattice
import Mathlib.Order.Nat
import GoErp.Lib.Processes
import GoErp.Lib.Run

/-!
# `Reload.Coordinator` — reloads of one module on one engine instance

`onChanged` and `OnReloadAnnouncement` (`hotreload/coordinator.go`) start leader and follower runs
(`modulereload/leader.go`, `modulereload/follower.go`), which publish a version through `publishModule`
(`modulereload/shared.go`). The version test, the election in Redis, the reservation, its release and the publication
are one step each.

The test is not repeated: a run that is overtaken between its test and its publication moves the module back
(`reload_moves_back`), and this is the only way (`published_sorted_iff`). `rank` is the precedence by which
`semver.Compare` orders versions.
-/

namespace GoErp.Reload

open Lib Lib.Run List

variable {V R : Type} [LinearOrder R] (rank : V → R)

/-! ## Runs -/

/-- Where a reload is. -/
inductive Pc where
  /-- before `SetNXWithTTL` -/
  | electing
  /-- has lost the election and polls -/
  | awaiting
  /-- before `reserveModule` -/
  | starting
  /-- holds the reservation: loads, validates, uploads or downloads, syncs -/
  | loading
  /-- has released the reservation -/
  | publishing
  /-- before the deferred `DeleteIfEqual` -/
  | unlocking
  | ended
deriving DecidableEq, Repr

/-- A call of `onChanged` (leader) or `OnReloadAnnouncement` (follower) that has passed the version test. -/
structure Run (V : Type) where
  leader : Bool
  version : V
  /-- ghost: how many versions had been published at the test -/
  seen : Nat
  pc : Pc
deriving DecidableEq, Repr

/-- Where a run goes after its last step: a leader gives its lock back. -/
def Run.finish (r : Run V) : Run V := { r with pc := if r.leader then .unlocking else .ended }

/-- What this instance has published, the reservation, the election locks and the reloads under way. -/
structure System (V : Type) where
  /-- what the registry has published, the newest first -/
  published : List V
  reserved : Bool
  /-- the lock of a version, with `true` if this instance holds it -/
  locks : V → Option Bool
  runs : List (Run V)

def System.init (published : List V) : System V := ⟨published, false, fun _ => none, []⟩

def System.currentVersionAtLeast (s : System V) (v : V) : Bool :=
  match s.published with
  | [] => false
  | current :: _ => rank v ≤ rank current

def System.setRun (s : System V) (i : Nat) (r : Run V) : System V := { s with runs := s.runs.set i r }

def System.setLock [DecidableEq V] (s : System V) (v : V) (owner : Option Bool) : System V :=
  { s with locks := Function.update s.locks v owner }

/-- A run begins if the instance is not already at the version. -/
def System.test (s : System V) (leader : Bool) (v : V) (pc : Pc) : System V :=
  if s.currentVersionAtLeast rank v then s else { s with runs := s.runs ++ [⟨leader, v, s.published.length, pc⟩] }

/-- A change notice, an announcement, or a step of the reload at a place of `runs`. -/
inductive Event (V : Type) where
  | onChanged (v : V)
  | onReloadAnnouncement (v : V)
  | setNX (i : Nat)
  /-- `waitForReloadAnnouncement` returns -/
  | awaited (i : Nat)
  | reserve (i : Nat)
  | load (i : Nat) (ok : Bool)
  | publish (i : Nat) (ok : Bool)
  | unlock (i : Nat)
  | expire (v : V)
  | lockElsewhere (v : V)
deriving DecidableEq, Repr

/-- One step of the coordinator; the reservation and the locks decide which reload may take it. -/
def step [DecidableEq V] (s : System V) : Event V → Option (System V)
  | .onChanged v => some (s.test rank true v .electing)
  | .onReloadAnnouncement v => some (s.test rank false v .starting)
  | .setNX i =>
    match s.runs[i]? with
    | some r =>
      if r.pc = .electing then
        if s.locks r.version = none then
          some ((s.setLock r.version (some true)).setRun i { r with pc := .starting })
        else some (s.setRun i { r with pc := .awaiting })
      else none
    | none => none
  | .awaited i =>
    match s.runs[i]? with
    | some r => if r.pc = .awaiting then some (s.setRun i { r with pc := .ended }) else none
    | none => none
  | .reserve i =>
    match s.runs[i]? with
    | some r =>
      if r.pc = .starting then
        if s.reserved then some (s.setRun i r.finish)
        else some ({ s with reserved := true }.setRun i { r with pc := .loading })
      else none
    | none => none
  | .load i ok =>
    match s.runs[i]? with
    | some r =>
      if r.pc = .loading then
        some ({ s with reserved := false }.setRun i (if ok then { r with pc := .publishing } else r.finish))
      else none
    | none => none
  | .publish i ok =>
    match s.runs[i]? with
    | some r =>
      if r.pc = .publishing then
        if ok then some ({ s with published := r.version :: s.published }.setRun i r.finish)
        else some (s.setRun i r.finish)
      else none
    | none => none
  | .unlock i =>
    match s.runs[i]? with
    | some r =>
      if r.pc = .unlocking then
        some ((if s.locks r.version = some true then s.setLock r.version none else s).setRun i { r with pc := .ended })
      else none
    | none => none
  | .expire v => some (s.setLock v none)
  | .lockElsewhere v => if s.locks v = none then some (s.setLock v (some false)) else none

/-! ## Moving back -/

/-- The module has never been moved back. -/
def System.Sorted (s : System V) : Prop := s.published.Pairwise fun newer older => rank older ≤ rank newer

/-- No version newer than its own has been published since the run passed its test. -/
def System.NotOvertaken (s : System V) (r : Run V) : Prop :=
  ∀ w ∈ s.published.take (s.published.length - r.seen), rank w ≤ rank r.version

/-- The event publishes no run that has been overtaken. -/
def InOrder (s : System V) : Event V → Prop
  | .publish i true =>
    match s.runs[i]? with
    | some r => r.pc = .publishing → s.NotOvertaken rank r
    | none => True
  | _ => True

instance (s : System V) (r : Run V) : Decidable (s.NotOvertaken rank r) := by
  unfold System.NotOvertaken
  infer_instance

instance (s : System V) (e : Event V) : Decidable (InOrder rank s e) := by
  unfold InOrder
  split
  · split <;> infer_instance
  · infer_instance

variable {rank}

/-! ## What a step does -/

/-- The run has its version and the time of its test from a run of the state, or has just passed the test. -/
def Descends (rank : V → R) (s : System V) (r' : Run V) : Prop :=
  (∃ r ∈ s.runs, r.version = r'.version ∧ r.seen = r'.seen) ∨
    r'.seen = s.published.length ∧ s.currentVersionAtLeast rank r'.version = false

/-- Either nothing is published, or one run that has come to its publication. -/
inductive Outcome (rank : V → R) (s : System V) (e : Event V) (s' : System V) : Prop where
  | quiet (hpublished : s'.published = s.published) (hruns : ∀ r' ∈ s'.runs, Descends rank s r')
      (horder : InOrder rank s e)
  | publishes (i : Nat) (r : Run V) (hr : s.runs[i]? = some r) (hpublished : s'.published = r.version :: s.published)
      (hruns : ∀ r' ∈ s'.runs, Descends rank s r') (horder : InOrder rank s e ↔ s.NotOvertaken rank r)

variable {s : System V} {r : Run V}

theorem descends_of_mem (h : r ∈ s.runs) : Descends rank s r := .inl ⟨r, h, rfl, rfl⟩

/-- A run moves on with its version and the time of its test. -/
theorem descends_setRun {i : Nat} {r' : Run V} (hr : s.runs[i]? = some r) (hversion : r.version = r'.version)
    (hseen : r.seen = r'.seen) : ∀ q ∈ s.runs.set i r', Descends rank s q := by
  intro q hq
  rcases mem_or_eq_of_mem_set hq with hq | rfl
  · exact descends_of_mem hq
  · exact .inl ⟨r, mem_of_getElem? hr, hversion, hseen⟩

theorem descends_test (s : System V) (leader : Bool) (v : V) (pc : Pc) :
    ∀ q ∈ (s.test rank leader v pc).runs, Descends rank s q := by
  intro q hq
  unfold System.test at hq
  split at hq
  · exact descends_of_mem hq
  rename_i htest
  rcases mem_append.mp hq with hq | hq
  · exact descends_of_mem hq
  · rw [mem_singleton.mp hq]
    exact .inr ⟨rfl, by simpa using htest⟩

theorem published_test (s : System V) (leader : Bool) (v : V) (pc : Pc) :
    (s.test rank leader v pc).published = s.published := by
  unfold System.test
  split <;> rfl

variable {e : Event V} {s' : System V}

theorem outcome_of_step [DecidableEq V] (h : step rank s e = some s') : Outcome rank s e s' := by
  cases e with
  | onChanged v | onReloadAnnouncement v =>
    cases h
    exact .quiet (published_test ..) (descends_test s _ v _) trivial
  | setNX i | reserve i =>
    simp only [step] at h
    split at h
    · rename_i r hr
      split at h
      · split at h
        all_goals
          cases h
          exact .quiet rfl (descends_setRun hr rfl rfl) trivial
      · simp at h
    · simp at h
  | awaited i =>
    simp only [step] at h
    split at h
    · rename_i r hr
      split at h
      · cases h
        exact .quiet rfl (descends_setRun hr rfl rfl) trivial
      · simp at h
    · simp at h
  | load i ok =>
    simp only [step] at h
    split at h
    · rename_i r hr
      split at h
      · cases h
        refine .quiet rfl (descends_setRun hr ?_ ?_) trivial
        · split <;> rfl
        · split <;> rfl
      · simp at h
    · simp at h
  | publish i ok =>
    simp only [step] at h
    split at h
    · rename_i r hr
      split at h
      · rename_i hpc
        split at h
        · rename_i hok
          cases h
          subst hok
          -- the one step that publishes; `InOrder` speaks of no other
          refine .publishes i r hr rfl (descends_setRun hr rfl rfl) ?_
          simp only [InOrder, hr]
          exact ⟨fun horder => horder hpc, fun hnot _ => hnot⟩
        · rename_i hok
          cases h
          obtain rfl : ok = false := by simpa using hok
          exact .quiet rfl (descends_setRun hr rfl rfl) trivial
      · simp at h
    · simp at h
  | unlock i =>
    simp only [step] at h
    split at h
    · rename_i r hr
      split at h
      · cases h
        split
        all_goals exact .quiet rfl (descends_setRun hr rfl rfl) trivial
      · simp at h
    · simp at h
  | expire v =>
    cases h
    exact .quiet rfl (fun _ hr => descends_of_mem hr) trivial
  | lockElsewhere v =>
    simp only [step] at h
    split at h
    · cases h
      exact .quiet rfl (fun _ hr => descends_of_mem hr) trivial
    · simp at h

/-! ## What the test has established -/

/-- The version that was current at the test is older than the run's. -/
structure Tested (rank : V → R) (published : List V) (r : Run V) : Prop where
  seen_le : r.seen ≤ published.length
  newer : ∀ w ∈ (published.drop (published.length - r.seen)).head?, rank w < rank r.version

theorem Tested.of_descends (hs : ∀ r ∈ s.runs, Tested rank s.published r) {r' : Run V}
    (h : Descends rank s r') : Tested rank s.published r' := by
  rcases h with ⟨r, hr, hversion, hseen⟩ | ⟨hseen, htest⟩
  · obtain ⟨hle, hnewer⟩ := hs r hr
    rw [hseen] at hle hnewer
    rw [hversion] at hnewer
    exact ⟨hle, hnewer⟩
  refine ⟨Nat.le_of_eq hseen, ?_⟩
  intro w hw
  rw [hseen, Nat.sub_self, drop_zero] at hw
  unfold System.currentVersionAtLeast at htest
  cases hpub : s.published with
  | nil => simp [hpub] at hw
  | cons current rest =>
    rw [hpub] at hw htest
    obtain rfl : current = w := by simpa using hw
    simpa using htest

/-- A publication does not change what was current before. -/
theorem Tested.cons {published : List V} (h : Tested rank published r) (v : V) : Tested rank (v :: published) r := by
  have hle := h.seen_le
  refine ⟨Nat.le_succ_of_le hle, ?_⟩
  have hdrop : (v :: published).drop ((v :: published).length - r.seen) =
      published.drop (published.length - r.seen) := by
    have hlen : (v :: published).length - r.seen = (published.length - r.seen) + 1 := by
      rw [length_cons]
      omega
    rw [hlen, drop_succ_cons]
  rw [hdrop]
  exact h.newer

/-- A run that has not been overtaken is at least as new as all that has been published. -/
theorem forall_le_iff_notOvertaken (hsorted : s.Sorted rank)
    (hr : Tested rank s.published r) : (∀ w ∈ s.published, rank w ≤ rank r.version) ↔ s.NotOvertaken rank r := by
  constructor
  · intro h w hw
    exact h w (mem_of_mem_take hw)
  intro h w hw
  rw [← take_append_drop (s.published.length - r.seen) s.published] at hw
  rcases mem_append.mp hw with hw | hw
  · exact h w hw
  -- published before the test: at most what was current then
  have hbefore : (s.published.drop (s.published.length - r.seen)).Pairwise
      fun newer older => rank older ≤ rank newer := List.Pairwise.drop hsorted
  have hnewer := hr.newer
  cases hdrop : s.published.drop (s.published.length - r.seen) with
  | nil => simp [hdrop] at hw
  | cons current rest =>
    rw [hdrop] at hw hbefore hnewer
    have hcurrent : rank current < rank r.version := hnewer current rfl
    rcases mem_cons.mp hw with rfl | hw
    · exact le_of_lt hcurrent
    · exact le_trans ((pairwise_cons.mp hbefore).1 w hw) (le_of_lt hcurrent)

/-- One step moves the module back exactly if it publishes an overtaken run. -/
theorem sorted_step_iff [DecidableEq V] (hsorted : s.Sorted rank) (hruns : ∀ r ∈ s.runs, Tested rank s.published r)
    (h : step rank s e = some s') : s'.Sorted rank ↔ InOrder rank s e := by
  cases outcome_of_step h with
  | quiet hpublished _ horder =>
    unfold System.Sorted at hsorted ⊢
    rw [hpublished]
    exact ⟨fun _ => horder, fun _ => hsorted⟩
  | publishes i r hr hpublished _ horder =>
    rw [horder, ← forall_le_iff_notOvertaken hsorted (hruns r (mem_of_getElem? hr))]
    unfold System.Sorted at hsorted ⊢
    rw [hpublished, pairwise_cons]
    exact ⟨fun h => h.1, fun h => ⟨h, hsorted⟩⟩

theorem tested_step [DecidableEq V] (hruns : ∀ r ∈ s.runs, Tested rank s.published r)
    (h : step rank s e = some s') : ∀ r ∈ s'.runs, Tested rank s'.published r := by
  intro r' hr'
  cases outcome_of_step h with
  | quiet hpublished hdesc _ =>
    rw [hpublished]
    exact Tested.of_descends hruns (hdesc r' hr')
  | publishes i r hr hpublished hdesc _ =>
    rw [hpublished]
    exact (Tested.of_descends hruns (hdesc r' hr')).cons r.version

/-- What has been published stays at the end of the sequence. -/
theorem published_suffix_step [DecidableEq V] (h : step rank s e = some s') : s.published <:+ s'.published := by
  cases outcome_of_step h with
  | quiet hpublished _ _ =>
    exact hpublished ▸ suffix_refl _
  | publishes i r hr hpublished _ _ =>
    rw [hpublished]
    exact suffix_cons ..

theorem published_suffix_run [DecidableEq V] {es : List (Event V)} (h : run (step rank) s es = some s') :
    s.published <:+ s'.published := by
  induction es generalizing s with
  | nil =>
    cases h
    exact suffix_refl _
  | cons e es ih =>
    obtain ⟨t, ht, hrest⟩ := run_cons.mp h
    exact (published_suffix_step ht).trans (ih hrest)

/-! ## Every run -/

theorem sorted_run_iff [DecidableEq V] {es : List (Event V)} (hsorted : s.Sorted rank)
    (hruns : ∀ r ∈ s.runs, Tested rank s.published r) (h : run (step rank) s es = some s') :
    s'.Sorted rank ↔ Along (step rank) (InOrder rank) s es := by
  induction es generalizing s with
  | nil =>
    cases h
    exact ⟨fun _ => trivial, fun _ => hsorted⟩
  | cons e es ih =>
    obtain ⟨t, ht, hrest⟩ := run_cons.mp h
    have hstep := sorted_step_iff hsorted hruns ht
    constructor
    · intro hend
      -- sorted at the end, so sorted after the first event
      have htsorted : t.Sorted rank := hend.sublist (published_suffix_run hrest).sublist
      refine ⟨hstep.mp htsorted, ?_⟩
      intro t' ht'
      obtain rfl : t = t' := Option.some.inj (ht.symm.trans ht')
      exact (ih htsorted (tested_step hruns ht) hrest).mp hend
    · intro halong
      exact (ih (hstep.mpr halong.1) (tested_step hruns ht) hrest).mpr (halong.2 t ht)

/-- **Hot reload moves a module back exactly by publishing a run that has been overtaken** since its version test, in
every interleaving of triggers, announcements and runs. -/
theorem published_sorted_iff [DecidableEq V] (rank : V → R) (installed : Option V) (es : List (Event V)) {s : System V}
    (h : run (step rank) (System.init installed.toList) es = some s) :
    s.Sorted rank ↔ Along (step rank) (InOrder rank) (System.init installed.toList) es := by
  refine sorted_run_iff ?_ ?_ h
  · cases installed <;> simp [System.Sorted, System.init]
  · intro r hr
    exact absurd hr not_mem_nil

/-- An announcement and a trigger for the same version, then a trigger for a newer one. -/
def orderlyReloads : List (Event Nat) :=
  [.onChanged 2, .onReloadAnnouncement 2, .setNX 0, .reserve 0, .reserve 1, .load 0 true, .publish 0 true, .unlock 0,
    .onReloadAnnouncement 2, .onChanged 3, .setNX 2, .reserve 2, .load 2 true, .publish 2 true]

theorem published_sorted_orderly :
    ∃ s, run (step id) (System.init (some 1).toList) orderlyReloads = some s ∧ s.published = [3, 2, 1] ∧
      s.Sorted id :=
  ⟨_, rfl, rfl, (published_sorted_iff id (some 1) orderlyReloads rfl).mpr (by decide)⟩

/-- Triggers for versions 2 and 3 both find version 1; the run for 3 publishes before the run for 2 begins to load. -/
def overtakenReload : List (Event Nat) :=
  [.onChanged 2, .onChanged 3, .setNX 0, .setNX 1, .reserve 1, .load 1 true, .publish 1 true, .reserve 0, .load 0 true,
    .publish 0 true]

theorem reload_moves_back :
    ¬ ∀ (V R : Type) [DecidableEq V] [LinearOrder R] (rank : V → R) (installed : Option V) (es : List (Event V))
        (s : System V), run (step rank) (System.init installed.toList) es = some s → s.Sorted rank := by
  intro h
  have hsorted := h Nat Nat id (some 1) overtakenReload _ rfl
  have hle := (pairwise_cons.mp hsorted).1 3 mem_cons_self
  exact absurd hle (by decide)

end GoErp.Reload
