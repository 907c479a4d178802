/-!
# `Lib.Follows` — one computation follows another

Two fallible computations, the second of which may accept more: where the first succeeds the second does, with a
related result. A bound that stops the first (`stuck`) stops the second as well, so that a first computation which
runs in step with one that is never stuck is never stuck either. The relation goes through `do` blocks step by step.
-/

namespace GoErp.Lib

variable {ε ε' α β α' β' : Type}

/-- The second computation succeeds where the first does and is stuck where it is. -/
inductive Follows (stuck : ε) (stuck' : ε') (R : α → β → Prop) : Except ε α → Except ε' β → Prop where
  | ok {a b} : R a b → Follows stuck stuck' R (.ok a) (.ok b)
  | stuck : Follows stuck stuck' R (.error stuck) (.error stuck')
  | refused {e y} : e ≠ stuck → Follows stuck stuck' R (.error e) y

namespace Follows

variable {stuck : ε} {stuck' : ε'} {R : α → β → Prop} {S : α' → β' → Prop} {x : Except ε α} {y : Except ε' β}

/-- Two computations that go on from related results go on related. -/
theorem bind {f : α → Except ε α'} {g : β → Except ε' β'} (h : Follows stuck stuck' R x y)
    (hf : ∀ a b, R a b → Follows stuck stuck' S (f a) (g b)) : Follows stuck stuck' S (x >>= f) (y >>= g) := by
  cases h with
  | ok hab => exact hf _ _ hab
  | stuck => exact .stuck
  | refused he => exact .refused he

/-- A result of the first computation is related to one of the second. -/
theorem of_ok {a : α} (h : Follows stuck stuck' R x y) (hx : x = .ok a) : ∃ b, y = .ok b ∧ R a b := by
  cases h with
  | ok hab =>
      cases hx
      exact ⟨_, rfl, hab⟩
  | stuck => cases hx
  | refused _ => cases hx

/-- The first computation is stuck only where the second is. -/
theorem ne_stuck (h : Follows stuck stuck' R x y) (hy : y ≠ .error stuck') : x ≠ .error stuck := by
  intro hx
  cases h with
  | ok _ => cases hx
  | stuck => exact hy rfl
  | refused he =>
      cases hx
      exact he rfl

end Follows

end GoErp.Lib
