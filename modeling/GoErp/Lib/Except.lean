/-!
# `Lib.Except` — taking an `Except` computation apart

A `do` block that succeeds ran each of its steps to success, and one that fails failed at its first
failing step. Every function of the model that reports errors is peeled with these two equivalences. `Succeeds`
forgets the result: whether a block succeeds is a conjunction over its steps.
-/

namespace GoErp.Lib

variable {ε α β : Type} {f : α → Except ε β} {x : Except ε α}

/-- A bind succeeds exactly when both halves do. -/
theorem bind_eq_ok {b : β} : (x >>= f) = .ok b ↔ ∃ a, x = .ok a ∧ f a = .ok b := by
  cases x with
  | error e => simp [bind, Except.bind]
  | ok a => simp [bind, Except.bind]

/-- A bind fails exactly when one of the halves does. -/
theorem bind_eq_error {e : ε} : (x >>= f) = .error e ↔ x = .error e ∨ ∃ a, x = .ok a ∧ f a = .error e := by
  cases x with
  | error e' => simp [bind, Except.bind]
  | ok a => simp [bind, Except.bind]

/-- A check of every element of a list succeeds exactly when it succeeds for each. -/
theorem forM_eq_ok {l : List α} {f : α → Except ε Unit} : forM l f = .ok () ↔ ∀ x ∈ l, f x = .ok () := by
  induction l with
  | nil => simp [pure, Except.pure]
  | cons x xs ih =>
    rw [List.forM_cons, bind_eq_ok, List.forall_mem_cons, ← ih]
    constructor
    · rintro ⟨_, hx, hxs⟩
      exact ⟨hx, hxs⟩
    · rintro ⟨hx, hxs⟩
      exact ⟨(), hx, hxs⟩

/-- The computation succeeds. -/
def Succeeds (x : Except ε α) : Prop := ∃ a, x = .ok a

theorem succeeds_ok (a : α) : Succeeds (.ok a : Except ε α) := ⟨a, rfl⟩

/-- Two steps succeed if the first does and then the second, where it does not matter what the first returned. -/
theorem succeeds_bind {P Q : Prop} (hx : Succeeds x ↔ P)
    (hf : ∀ a, Succeeds (f a) ↔ Q) : Succeeds (x >>= f) ↔ P ∧ Q := by
  constructor
  · rintro ⟨b, hb⟩
    obtain ⟨a, ha, hfa⟩ := bind_eq_ok.mp hb
    exact ⟨hx.mp ⟨a, ha⟩, (hf a).mp ⟨b, hfa⟩⟩
  rintro ⟨hp, hq⟩
  obtain ⟨a, ha⟩ := hx.mpr hp
  obtain ⟨b, hb⟩ := (hf a).mpr hq
  exact ⟨b, bind_eq_ok.mpr ⟨a, ha, hb⟩⟩

/-- A step that always succeeds can be left out. -/
theorem succeeds_bind_total {P : Prop} (hx : Succeeds x ↔ P) (hf : ∀ a, Succeeds (f a)) : Succeeds (x >>= f) ↔ P :=
  (succeeds_bind hx fun a => iff_true_intro (hf a)).trans (Iff.of_eq (and_true P))

end GoErp.Lib
