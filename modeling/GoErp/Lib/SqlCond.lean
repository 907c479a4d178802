import GoErp.Lib.SqlEval
import GoErp.Lib.SqlText

/-!
# `Lib.SqlCond` — texts as conditions

A text that is a condition on the row at hand, with the proposition that decides it: `Cond` for a text that
can be an operand, `CondInside` for one that needs parentheses first. Joining conditions by ` OR ` and
` AND ` joins their propositions, whatever `NULL` does on the way.
-/

namespace GoErp.Lib.Sql

instance : Inhabited Term := ⟨.null⟩

/-- An operand that is `TRUE` exactly when `P` holds. -/
def Cond (env : Env) (t : String) (P : Prop) : Prop :=
  ∃ e u, Operand false t e ∧ env.Truth e u ∧ (u = some true ↔ P)

/-- The same of a text that stands between parentheses. -/
def CondInside (env : Env) (t : String) (P : Prop) : Prop :=
  ∃ e u, Inside false t e ∧ env.Truth e u ∧ (u = some true ↔ P)

section

variable {env : Env} {t s : String} {P Q : Prop}

theorem Cond.inside (h : Cond env t P) : CondInside env t P := by
  obtain ⟨e, u, hop, htruth, hiff⟩ := h
  exact ⟨e, u, hop.inside, htruth, hiff⟩

theorem CondInside.paren (h : CondInside env t P) : Cond env ("(" ++ t ++ ")") P := by
  obtain ⟨e, u, hin, htruth, hiff⟩ := h
  exact ⟨e, u, hin.paren, htruth, hiff⟩

theorem Cond.and (h : Cond env t P) (h' : Cond env s Q) : CondInside env (t ++ " AND " ++ s) (P ∧ Q) := by
  obtain ⟨e, u, hop, htruth, hiff⟩ := h
  obtain ⟨e', u', hop', htruth', hiff'⟩ := h'
  refine ⟨_, _, hop.and hop', htruth.and htruth', ?_⟩
  rw [and3_eq_true, hiff, hiff']

/-- A row satisfies a condition exactly when its proposition holds. -/
theorem CondInside.holds_iff (h : CondInside env t P) : env.holds t ↔ P := by
  obtain ⟨e, u, hin, htruth, hiff⟩ := h
  rw [Env.holds_iff hin.read htruth, ← hiff]
  rcases u with _ | _ | _ <;> simp [Val.ofTruth]

/-! ## Joined conditions -/

section

variable {α : Type} {text : α → String} {good : α → Prop} {x : α} {xs : List α}

/-- **Conditions joined by ` OR `**: one of them holds. -/
theorem Cond.orJoin (h : ∀ y ∈ x :: xs, Cond env (text y) (good y)) :
    CondInside env (" OR ".intercalate ((x :: xs).map text)) (∃ y ∈ x :: xs, good y) := by
  choose! term truth hop htruth hiff using h
  rw [List.forall_mem_cons] at hop htruth
  have hops : ∀ i ∈ xs.map fun y => (text y, term y), Operand false i.1 i.2 := by simpa using hop.2
  have htruths : ∀ i ∈ xs.map fun y => (term y, truth y), env.Truth i.1 i.2 := by simpa using htruth.2
  have hin := hop.1.orJoin hops
  obtain ⟨u, hu, huiff⟩ := htruth.1.orChain htruths
  simp only [List.map_map] at hin hu
  refine ⟨_, u, hin, hu, huiff.trans ?_⟩
  rw [List.exists_mem_cons_iff, hiff x (by simp)]
  refine or_congr_right ?_
  simp only [List.mem_map, exists_exists_and_eq_and]
  exact exists_congr fun y => and_congr_right fun hy => hiff y (List.mem_cons_of_mem x hy)

/-- **Conditions joined by ` AND `**: all of them hold. -/
theorem Cond.andJoin (hs : Cond env s P) (h : ∀ y ∈ xs, Cond env (text y) (good y)) :
    CondInside env (" AND ".intercalate (s :: xs.map text)) (P ∧ ∀ y ∈ xs, good y) := by
  obtain ⟨e, t, hope, hte, htiff⟩ := hs
  choose! term truth hop htruth hiff using h
  have hops : ∀ i ∈ xs.map fun y => (text y, term y), Operand false i.1 i.2 := by simpa using hop
  have htruths : ∀ i ∈ xs.map fun y => (term y, truth y), env.Truth i.1 i.2 := by simpa using htruth
  have hin := hope.andJoin hops
  obtain ⟨u, hu, huiff⟩ := hte.andChain htruths
  simp only [List.map_map] at hin hu
  refine ⟨_, u, hin, hu, huiff.trans ?_⟩
  rw [htiff]
  refine and_congr_right fun _ => ?_
  simp only [List.forall_mem_map]
  exact forall_congr' fun y => imp_congr_right fun hy => hiff y hy

end

end

end GoErp.Lib.Sql
