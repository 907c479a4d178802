import Mathlib.Data.List.Infix

/-!
# `Lib.Rewrite` — one pass over a text

A pass goes over a text from the left. Where `find` matches, its result is written and the match is skipped; any other
character is kept. Replacing every occurrence of a token is such a pass: no token is looked for in what was written
(`replace_induct` follows the pass). It is linear in the replacement (`exists_count`), and makes no new occurrence of a
text that the replacement cannot be part of (`infix_of_replaceAll`).
-/

namespace GoErp.Lib.Rewrite

open List

variable {α β : Type}

/-- A match is what is written for it, and how many characters it takes after the first. The number counts those that
are still to be skipped. -/
def pass (find : List α → Option (List β × Nat)) (keep : α → List β) : Nat → List α → List β
  | _, [] => []
  | n + 1, _ :: s => pass find keep n s
  | 0, c :: s =>
    match find (c :: s) with
    | some (r, n) => r ++ pass find keep n s
    | none => keep c ++ pass find keep 0 s

theorem pass_drop {find : List α → Option (List β × Nat)} {keep : α → List β} (n : Nat) (s : List α) :
    pass find keep n s = pass find keep 0 (s.drop n) := by
  induction s generalizing n with
  | nil => cases n <;> rfl
  | cons c s ih =>
    cases n with
    | zero => rfl
    | succ n => exact ih n

variable [DecidableEq α] {t r s : List α} {c : α}

/-- Every occurrence of `t`, from the left, by `r`. -/
def replaceAll (t r : List α) : List α → List α :=
  pass (fun s => if t <+: s then some (r, t.length - 1) else none) (fun c => [c]) 0

theorem replaceAll_token (ht : t ≠ []) : replaceAll t r (t ++ s) = r ++ replaceAll t r s := by
  obtain ⟨c, t, rfl⟩ := exists_cons_of_ne_nil ht
  have hp : c :: t <+: c :: (t ++ s) := prefix_append (c :: t) s
  rw [replaceAll, cons_append, pass, if_pos hp]
  dsimp only
  rw [pass_drop, length_cons, Nat.add_sub_cancel, drop_left]

theorem replaceAll_char (h : ¬ t <+: c :: s) : replaceAll t r (c :: s) = c :: replaceAll t r s := by
  rw [replaceAll, pass, if_neg h]
  rfl

/-- Induction along the pass. -/
theorem replace_induct {P : List α → Prop} (ht : t ≠ []) (nil : P []) (token : ∀ s, P s → P (t ++ s))
    (char : ∀ c s, ¬ t <+: c :: s → P s → P (c :: s)) (s : List α) : P s := by
  induction hn : s.length using Nat.strong_induction_on generalizing s with
  | _ n ih =>
    subst hn
    cases s with
    | nil => exact nil
    | cons c s =>
      by_cases h : t <+: c :: s
      · obtain ⟨s', hs'⟩ := h
        rw [← hs']
        have hpos := length_pos_of_ne_nil ht
        have hlen : (t ++ s').length = (c :: s).length := by rw [hs']
        rw [length_append] at hlen
        exact token s' (ih _ (by omega) s' rfl)
      · exact char c s h (ih _ (by simp) s rfl)

theorem replaceAll_absent (h : ¬ t <:+: s) : replaceAll t r s = s := by
  induction s with
  | nil => rfl
  | cons c s ih =>
    rw [replaceAll_char fun hp => h hp.isInfix, ih fun hs => h (hs.trans (suffix_cons c s).isInfix)]

/-- What a pass adds of a character is a multiple of what the replacement has. -/
theorem exists_count (ht : t ≠ []) (s : List α) : ∃ n, (t <:+: s → 0 < n) ∧
    ∀ r c, c ∉ t → (replaceAll t r s).count c = s.count c + n * r.count c := by
  induction s using replace_induct ht with
  | nil => exact ⟨0, fun h => absurd (infix_nil.mp h) ht, fun r c _ => by simp [replaceAll, pass]⟩
  | token s ih =>
    obtain ⟨n, -, hn⟩ := ih
    refine ⟨n + 1, fun _ => Nat.succ_pos n, fun r c hc => ?_⟩
    rw [replaceAll_token ht, count_append, count_append, hn r c hc, count_eq_zero_of_not_mem hc, Nat.succ_mul]
    omega
  | char x s hx ih =>
    obtain ⟨n, hpos, hn⟩ := ih
    refine ⟨n, fun h => hpos ((infix_cons_iff.mp h).resolve_left hx), fun r c hc => ?_⟩
    rw [replaceAll_char hx, count_cons, count_cons, hn r c hc]
    omega

/-- A text that neither starts in the replacement nor runs into it is not made by the pass. -/
theorem infix_of_replaceAll {u : List α} (ht : t ≠ []) (hstart : ∀ r' w, r' <:+ r → r' ≠ [] → ¬ u <+: r' ++ w)
    (hinto : ∀ u' w, u' <:+ u → u' ≠ [] → ¬ u' <+: r ++ w) (h : u <:+: replaceAll t r s) : u <:+: s := by
  have hfront : ∀ s u', u' <:+ u → u' <+: replaceAll t r s → u' <+: s := by
    intro s
    induction s using replace_induct ht with
    | nil => exact fun u' _ h => h
    | token s ih =>
      intro u' hu' h
      rw [replaceAll_token ht] at h
      by_cases hnil : u' = []
      · exact hnil ▸ nil_prefix
      · exact absurd h (hinto u' _ hu' hnil)
    | char c s hc ih =>
      intro u' hu' h
      rw [replaceAll_char hc] at h
      cases u' with
      | nil => exact nil_prefix
      | cons x u' =>
        obtain ⟨rfl, htail⟩ := cons_prefix_cons.mp h
        exact cons_prefix_cons.mpr ⟨rfl, ih u' ((suffix_cons x u').trans hu') htail⟩
  have hskip : ∀ r', r' <:+ r → ∀ w, u <:+: r' ++ w → u <:+: w := by
    intro r' hr' w h
    induction r' with
    | nil => exact h
    | cons x r' ih =>
      have h := (infix_cons_iff.mp h).resolve_left (hstart (x :: r') w hr' (cons_ne_nil x r'))
      exact ih ((suffix_cons x r').trans hr') h
  induction s using replace_induct ht with
  | nil => exact h
  | token s ih =>
    rw [replaceAll_token ht] at h
    exact (ih (hskip r suffix_rfl _ h)).trans (suffix_append t s).isInfix
  | char c s hc ih =>
    rw [replaceAll_char hc] at h
    rcases infix_cons_iff.mp h with hp | h
    · rw [← replaceAll_char hc] at hp
      exact (hfront (c :: s) u suffix_rfl hp).isInfix
    · exact (ih h).trans (suffix_cons c s).isInfix

end GoErp.Lib.Rewrite
