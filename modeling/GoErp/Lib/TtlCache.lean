import Mathlib.Logic.Function.Basic

/-!
# `Lib.TtlCache` — a cache whose entries expire

A map from keys to values with an expiry time. `setNX` claims a key that is free or expired; `Held c k e` says
that `k` is taken until `e` at least. A held key stays held whatever is claimed later, and cannot be claimed
before its time.
-/

namespace GoErp.Lib

variable {κ ν : Type} [DecidableEq κ]

structure TtlEntry (ν : Type) where
  value : ν
  expires : Nat

/-- Entries that have expired may still be stored; `taken` tells them apart. -/
def TtlCache (κ ν : Type) : Type := κ → Option (TtlEntry ν)

namespace TtlCache

def taken (c : TtlCache κ ν) (now : Nat) (k : κ) : Bool := (c k).any (now < ·.expires)

/-- Sets the key unless it is taken, and says whether it did. -/
def setNX (c : TtlCache κ ν) (now : Nat) (k : κ) (v : ν) (ttl : Nat) : TtlCache κ ν × Bool :=
  if c.taken now k then (c, false) else (Function.update c k (some ⟨v, now + ttl⟩), true)

/-- The key is taken until `e` at least. -/
def Held (c : TtlCache κ ν) (k : κ) (e : Nat) : Prop := ∃ x, c k = some x ∧ e ≤ x.expires

variable {c : TtlCache κ ν} {k : κ}

theorem setNX_claimed {now : Nat} {v : ν} {ttl : Nat} (h : (c.setNX now k v ttl).2 = true) :
    (c.setNX now k v ttl).1.Held k (now + ttl) := by
  unfold setNX at h ⊢
  split at h
  · cases h
  · rw [if_neg ‹_›]
    exact ⟨⟨v, now + ttl⟩, Function.update_self .., Nat.le_refl _⟩

theorem Held.not_claimed {e now : Nat} (h : c.Held k e) (hnow : now < e) (v : ν) (ttl : Nat) :
    (c.setNX now k v ttl).2 = false := by
  obtain ⟨x, hx, hle⟩ := h
  have ht : c.taken now k = true := by
    simp only [taken, hx, Option.any_some, decide_eq_true_eq]
    omega
  rw [setNX, if_pos ht]

/-- A key that is claimed again had expired, so it is held even longer. -/
theorem Held.setNX {e : Nat} (h : c.Held k e) (now : Nat) (k' : κ) (v : ν) (ttl : Nat) :
    (c.setNX now k' v ttl).1.Held k e := by
  unfold TtlCache.setNX
  split
  · exact h
  rename_i hfree
  by_cases hk : k = k'
  · subst hk
    obtain ⟨x, hx, hle⟩ := h
    have hexp : ¬ now < x.expires := by simpa [taken, hx] using hfree
    refine ⟨_, Function.update_self .., ?_⟩
    show e ≤ now + ttl
    omega
  · obtain ⟨x, hx, hle⟩ := h
    exact ⟨x, (Function.update_of_ne hk ..).trans hx, hle⟩

end TtlCache

end GoErp.Lib
