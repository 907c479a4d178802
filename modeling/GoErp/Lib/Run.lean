import Mathlib.Data.List.Basic

/-!
# `Lib.Run` — runs of a step function

A system given by `step : σ → ε → Option σ`, where `none` is an event that cannot happen in the state. A run
folds a list of events; `Along` says that every event of the run meets a condition in the state it happens in.
An invariant that such events preserve holds at the end (`run_invariant`).
-/

namespace GoErp.Lib.Run

variable {σ ε : Type} (step : σ → ε → Option σ)

/-- The state after the events, if all of them can happen. -/
def run (s : σ) : List ε → Option σ
  | [] => some s
  | e :: es =>
    match step s e with
    | none => none
    | some s' => run s' es

/-- Every event of the run meets `ok` in the state it happens in. -/
def Along (ok : σ → ε → Prop) (s : σ) : List ε → Prop
  | [] => True
  | e :: es => ok s e ∧ ∀ s', step s e = some s' → Along ok s' es

/-- Conditions that can be tested can be tested along a run. -/
instance decidableAlong {ok : σ → ε → Prop} [∀ s e, Decidable (ok s e)] (s : σ) :
    (es : List ε) → Decidable (Along step ok s es)
  | [] => isTrue trivial
  | e :: es =>
    match h : step s e with
    | none => decidable_of_iff (ok s e) (by simp [Along, h])
    | some s' =>
      haveI : Decidable (Along step ok s' es) := decidableAlong s' es
      decidable_of_iff (ok s e ∧ Along step ok s' es) (by simp [Along, h])

variable {step} {es : List ε} {s' s : σ}

theorem run_cons {e : ε} : run step s (e :: es) = some s' ↔ ∃ t, step s e = some t ∧ run step t es = some s' := by
  rw [run]
  cases step s e <;> simp

variable {es' : List ε}

theorem run_append : run step s (es ++ es') = (run step s es).bind fun t => run step t es' := by
  induction es generalizing s with
  | nil => rfl
  | cons e es ih =>
    rw [List.cons_append, run, run]
    cases step s e with
    | none => rfl
    | some t => exact ih

variable {inv : σ → Prop} {ok : σ → ε → Prop}

/-- **An invariant of the steps is an invariant of the runs.** -/
theorem run_invariant (hstep : ∀ s e s', inv s → ok s e → step s e = some s' → inv s') (hs : inv s)
    (hok : Along step ok s es) (hrun : run step s es = some s') : inv s' := by
  induction es generalizing s with
  | nil =>
    cases hrun
    exact hs
  | cons e es ih =>
    obtain ⟨t, ht, hrest⟩ := run_cons.mp hrun
    exact ih (hstep s e t hs hok.1 ht) (hok.2 t ht) hrest

/-- What an invariant says of the next event holds of every event of the run. -/
theorem along_invariant {good : σ → ε → Prop} (hstep : ∀ s e s', inv s → ok s e → step s e = some s' → inv s')
    (hgood : ∀ s e, inv s → ok s e → good s e) (hs : inv s) (hok : Along step ok s es) : Along step good s es := by
  induction es generalizing s with
  | nil => trivial
  | cons e es ih =>
    exact ⟨hgood s e hs hok.1, fun s' hs' => ih (hstep s e s' hs hok.1 hs') (hok.2 s' hs')⟩

/-- What holds along a run holds along its rest. -/
theorem Along.of_append {t : σ} (h : Along step ok s (es ++ es')) (hrun : run step s es = some t) :
    Along step ok t es' := by
  induction es generalizing s with
  | nil =>
    cases hrun
    exact h
  | cons e es ih =>
    obtain ⟨u, hu, hrest⟩ := run_cons.mp hrun
    exact ih (h.2 u hu) hrest

/-- What holds along a run holds along its beginning. -/
theorem Along.left_of_append (h : Along step ok s (es ++ es')) : Along step ok s es := by
  induction es generalizing s with
  | nil => trivial
  | cons e es ih => exact ⟨h.1, fun t ht => ih (h.2 t ht)⟩

/-- Events that meet the condition in every state meet it along the run. -/
theorem along_of_forall (h : ∀ e ∈ es, ∀ s, ok s e) (s : σ) : Along step ok s es := by
  induction es generalizing s with
  | nil => trivial
  | cons e es ih => exact ⟨h e (by simp) s, fun s' _ => ih (fun e' he' => h e' (by simp [he'])) s'⟩

/-- An invariant that every step keeps holds at the end of every run. -/
theorem run_keeps (inv : σ → Prop) (hstep : ∀ s e s', inv s → step s e = some s' → inv s') (hs : inv s)
    (hrun : run step s es = some s') : inv s' := by
  have htrue : Along step (fun _ _ => True) s es := along_of_forall (fun _ _ _ => trivial) s
  exact run_invariant (fun t e t' ht _ => hstep t e t' ht) hs htrue hrun

/-- An invariant that also speaks of the events so far. -/
theorem run_history (inv : List ε → σ → Prop)
    (hstep : ∀ past s e s', inv past s → step s e = some s' → inv (past ++ [e]) s') {past : List ε} (hs : inv past s)
    (hrun : run step s es = some s') : inv (past ++ es) s' := by
  induction es generalizing s past with
  | nil =>
    cases hrun
    simpa using hs
  | cons e es ih =>
    obtain ⟨t, ht, hrest⟩ := run_cons.mp hrun
    simpa using ih (hstep past s e t hs ht) hrest

/-- An event in the middle of a run happens in the state that the events before it lead to. -/
theorem along_iff_split (hrun : run step s es = some s') :
    Along step ok s es ↔ ∀ past e rest t t', es = past ++ e :: rest → run step s past = some t →
      step t e = some t' → ok t e := by
  induction es generalizing s with
  | nil => simp [Along]
  | cons e es ih =>
    obtain ⟨u, hu, hrest⟩ := run_cons.mp hrun
    simp only [Along, hu, Option.some.injEq, forall_eq', ih hrest]
    constructor
    · rintro ⟨he, hes⟩ (_ | ⟨e', past⟩) e₁ rest t t' heq hpast hstep
      · cases heq
        cases hpast
        exact he
      · obtain ⟨rfl, rfl⟩ := List.cons.inj heq
        obtain ⟨v, hv, hpast⟩ := run_cons.mp hpast
        cases hu.symm.trans hv
        exact hes past e₁ rest t t' rfl hpast hstep
    · intro h
      refine ⟨h [] e es s u rfl rfl hu, ?_⟩
      intro past e₁ rest t t' heq hpast hstep
      exact h (e :: past) e₁ rest t t' (by rw [heq, List.cons_append]) (run_cons.mpr ⟨u, hu, hpast⟩) hstep

end GoErp.Lib.Run
