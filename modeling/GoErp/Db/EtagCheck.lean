import GoErp.Db.Exec

/-!
# `Db.EtagCheck` — what the detected etag check says of a row

An `UPDATE` whose `WHERE` compares the etag of its target is reported as a mismatch when it changes no row
(`isEtagMismatch`). The walk of `whereClauseHasEtagCheck` stops at `OR`, `NOT` and subqueries, but goes through every
other message: the arguments of a `COALESCE`, of a function, of `IS NOT TRUE`. Where it only goes through `AND`s the
report is right (`etagCheck_sound`); a conjunct inside which it finds an equality is taken for a check and is none.
-/

namespace GoErp.Db

open Lib PgQuery List

/-- `isEtagMismatch`. -/
def isEtagMismatch (whereClauseHasEtag : Bool) (rowsAffected : ℕ) : Bool := whereClauseHasEtag && rowsAffected == 0

/-! ## The truth of a condition -/

/-- `AND` of truth values; `none` is `NULL`. -/
def allTrue (vs : List (Option Bool)) : Option Bool :=
  if some false ∈ vs then some false else if none ∈ vs then none else some true

/-- `OR` of truth values. -/
def anyTrue (vs : List (Option Bool)) : Option Bool :=
  if some true ∈ vs then some true else if none ∈ vs then none else some false

/-- A row and the parameters, as far as a condition sees them: the value of an operand, `none` for `NULL`, and the
truth of a message that is neither a connective nor an equality. -/
structure RowView where
  value : Node → Option String
  atom : Node → Option Bool

/-- Whether the operator is `=`: its name is the last part. -/
def isEquality (expr : Node) : Bool :=
  expr.label == .aExpr true && (expr.getAll .name).getLast?.map Tree.label == some (.string "=")

/-- The values of the two sides of an equality. -/
def RowView.sides (row : RowView) (expr : Node) : Option String × Option String :=
  ((expr.get? .lexpr).bind row.value, (expr.get? .rexpr).bind row.value)

/-- The truth of an equality: `NULL` if a side is. -/
def RowView.equal (row : RowView) (expr : Node) : Option Bool :=
  match row.sides expr with
  | (some a, some b) => some (a == b)
  | _ => none

mutual

/-- The truth of a condition on a row, in SQL's three values. -/
def truth (row : RowView) : Node → Option Bool
  | .mk label children =>
    match label with
    | .boolExpr .and => allTrue (truths row children)
    | .boolExpr .or => anyTrue (truths row children)
    | .boolExpr .not => ((truths row children).head?.getD none).map not
    | .other "CoalesceExpr" => (truths row children).findSome? id
    | _ => if isEquality (.mk label children) then row.equal (.mk label children) else row.atom (.mk label children)

def truths (row : RowView) : List (Field × Node) → List (Option Bool)
  | [] => []
  | (_, n) :: rest => truth row n :: truths row rest

end

/-- The rows an `UPDATE` with this condition changes. -/
def rowsAffected (rows : List RowView) (w : Node) : ℕ := (rows.filter fun row => truth row w = some true).length

mutual

/-- What is joined by `AND` nodes alone. -/
def conjuncts : Node → List Node
  | .mk label children =>
    match label with
    | .boolExpr .and => conjunctsList children
    | _ => [.mk label children]

def conjunctsList : List (Field × Node) → List Node
  | [] => []
  | (_, n) :: rest => conjuncts n ++ conjunctsList rest

end

/-- The names by which a statement can refer to its target: an alias hides the name of the relation. -/
def scopeNames (relation : Option Node) : List String :=
  match relation with
  | none => []
  | some rel => if aliasname rel = "" then [relname rel] else [aliasname rel]

/-- `<target>.etag = x`. -/
def isEtagEquality (relation : Option Node) (expr : Node) : Bool :=
  isEquality expr && (columnRefNamesEtag (expr.get? .lexpr) (scopeNames relation) ||
    columnRefNamesEtag (expr.get? .rexpr) (scopeNames relation))

/-! ## What the detection is for -/

/-- The etag of the row is the one it is compared with. -/
def RowView.Matches (row : RowView) (c : Node) : Prop := ∃ etag, row.sides c = (some etag, some etag)

/-- A detected check protects the row: the condition is true only of rows whose etag is the one given. And it explains
an update that changed nothing: if a row meets the other conjuncts, its etag is not the one given. -/
structure EtagSound (relation : Option Node) (w : Node) : Prop where
  protects : whereClauseHasEtagCheck (some w) relation = true → ∀ row, truth row w = some true →
    ∃ c ∈ conjuncts w, isEtagEquality relation c = true ∧ row.Matches c
  mismatch : ∀ rows, isEtagMismatch (whereClauseHasEtagCheck (some w) relation) (rowsAffected rows w) = true →
    ∀ row ∈ rows, (∀ c ∈ conjuncts w, isEtagEquality relation c = false → truth row c = some true) →
      ∃ c ∈ conjuncts w, isEtagEquality relation c = true ∧ ¬ row.Matches c

/-- A conjunct that the walk reads as it is meant. An operator that it takes for `=` on the target's etag is one; of
any other conjunct it looks at no part, or finds no such operator in it. -/
def ReadRight (relation : Option Node) (c : Node) : Prop :=
  match c.label with
  | .aExpr _ => etagCheck (targetRelationNames relation) c = true → isEtagEquality relation c = true
  | .subLink | .boolExpr .or | .boolExpr .not => True
  | _ => etagCheckList (targetRelationNames relation) c.children = false

instance (relation : Option Node) (c : Node) : Decidable (ReadRight relation c) := by
  unfold ReadRight
  split <;> infer_instance

/-! ## Conjuncts -/

theorem truths_eq (row : RowView) (cs : List (Field × Node)) : truths row cs = cs.map fun x => truth row x.2 := by
  induction cs with
  | nil => rfl
  | cons x cs ih => rw [truths, ih, map_cons]

theorem mem_conjunctsList {c : Node} {cs : List (Field × Node)} :
    c ∈ conjunctsList cs ↔ ∃ x ∈ cs, c ∈ conjuncts x.2 := by
  induction cs with
  | nil => simp [conjunctsList]
  | cons x cs ih => rw [conjunctsList, mem_append, ih, exists_mem_cons_iff]

theorem etagCheckList_eq (names : List String) (cs : List (Field × Node)) :
    etagCheckList names cs = cs.any fun x => etagCheck names x.2 := by
  induction cs with
  | nil => rfl
  | cons x cs ih => rw [etagCheckList, ih, any_cons]

theorem allTrue_eq_true {vs : List (Option Bool)} : allTrue vs = some true ↔ ∀ v ∈ vs, v = some true := by
  constructor
  · intro h v hv
    unfold allTrue at h
    split at h
    · cases h
    split at h
    · cases h
    match v with
    | some true => rfl
    | some false => contradiction
    | none => contradiction
  · intro h
    have hfalse : some false ∉ vs := fun hv => by cases h _ hv
    have hnull : none ∉ vs := fun hv => by cases h _ hv
    rw [allTrue, if_neg hfalse, if_neg hnull]

theorem conjuncts_self {label : Msg} {cs : List (Field × Node)} (hand : label ≠ .boolExpr .and) :
    conjuncts (.mk label cs) = [.mk label cs] := by
  rw [conjuncts]
  exact hand

/-- A conjunct is no `AND` itself. -/
theorem conjuncts_conjunct {w c : Node} (hc : c ∈ conjuncts w) : c.label ≠ .boolExpr .and ∧ conjuncts c = [c] := by
  induction w using Tree.induct with
  | node label cs ih =>
    by_cases hand : label = .boolExpr .and
    · subst hand
      rw [conjuncts] at hc
      obtain ⟨x, hx, hc⟩ := mem_conjunctsList.mp hc
      exact ih x hx hc
    · rw [conjuncts_self hand, mem_singleton] at hc
      subst hc
      exact ⟨hand, conjuncts_self hand⟩

/-- A condition is true exactly where its conjuncts are. -/
theorem truth_eq_true_iff {row : RowView} {w : Node} :
    truth row w = some true ↔ ∀ c ∈ conjuncts w, truth row c = some true := by
  induction w using Tree.induct with
  | node label cs ih =>
    by_cases hand : label = .boolExpr .and
    · subst hand
      rw [truth, truths_eq, allTrue_eq_true, conjuncts, forall_mem_map]
      constructor
      · intro h c hc
        obtain ⟨x, hx, hc⟩ := mem_conjunctsList.mp hc
        exact (ih x hx).mp (h x hx) c hc
      · intro h x hx
        exact (ih x hx).mpr fun c hc => h c (mem_conjunctsList.mpr ⟨x, hx, hc⟩)
    · rw [conjuncts_self hand, forall_mem_singleton]

/-- The walk finds an equality exactly if it finds one in a conjunct. -/
theorem etagCheck_iff {names : List String} {w : Node} :
    etagCheck names w = true ↔ ∃ c ∈ conjuncts w, etagCheck names c = true := by
  induction w using Tree.induct with
  | node label cs ih =>
    by_cases hand : label = .boolExpr .and
    · subst hand
      show etagCheckList names cs = true ↔ _
      rw [etagCheckList_eq, any_eq_true, conjuncts]
      constructor
      · rintro ⟨x, hx, hfound⟩
        obtain ⟨c, hc, hcheck⟩ := (ih x hx).mp hfound
        exact ⟨c, mem_conjunctsList.mpr ⟨x, hx, hc⟩, hcheck⟩
      · rintro ⟨c, hc, hcheck⟩
        obtain ⟨x, hx, hc⟩ := mem_conjunctsList.mp hc
        exact ⟨x, hx, (ih x hx).mpr ⟨c, hc, hcheck⟩⟩
    · rw [conjuncts_self hand]
      simp

/-- A conjunct with a detected check that is read right is an equality on the target's etag; else it is none. -/
theorem isEtagEquality_iff {relation : Option Node} {c : Node} (hand : c.label ≠ .boolExpr .and)
    (hcheck : etagCheck (targetRelationNames relation) c = true) :
    isEtagEquality relation c = true ↔ ReadRight relation c := by
  obtain ⟨label, cs⟩ := c
  unfold ReadRight
  cases label
  case aExpr op => simp [hcheck]
  case boolExpr op =>
    cases op
    case and => exact absurd rfl hand
    all_goals simp [etagCheck] at hcheck
  case subLink => simp [etagCheck] at hcheck
  all_goals
    have hlist : etagCheckList (targetRelationNames relation) cs = true := hcheck
    simp [isEtagEquality, isEquality, hlist]

theorem truth_of_isEquality {row : RowView} {c : Node} (h : isEquality c = true) : truth row c = row.equal c := by
  obtain ⟨label, cs⟩ := c
  cases label
  case aExpr op =>
    rw [truth, if_pos h]
    all_goals simp
  all_goals simp [isEquality] at h

/-- An equality is true where both sides have one value. -/
theorem matches_iff {relation : Option Node} {row : RowView} {c : Node} (h : isEtagEquality relation c = true) :
    truth row c = some true ↔ row.Matches c := by
  rw [truth_of_isEquality (Bool.and_eq_true_iff.mp h).1, RowView.equal, RowView.Matches]
  rcases row.sides c with ⟨_ | a, _ | b⟩
  case some.some =>
    simp only [Option.some.injEq, beq_iff_eq, Prod.mk.injEq]
    constructor
    · rintro rfl
      exact ⟨a, rfl, rfl⟩
    · rintro ⟨etag, rfl, rfl⟩
      rfl
  all_goals simp

/-- `etag = $n`, with the qualifier of the column. -/
def etagEquals (qualifier : List String) (param : ℕ) : Node :=
  .mk (.aExpr true) [(.name, .mk (.string "=") []),
    (.lexpr, .mk .columnRef ((qualifier ++ ["etag"]).map fun name => (.fields, .mk (.string name) []))),
    (.rexpr, .mk (.paramRef param) [])]

/-- `id = $n`. -/
def idEquals (param : ℕ) : Node :=
  .mk (.aExpr true) [(.name, .mk (.string "=") []),
    (.lexpr, .mk .columnRef [(.fields, .mk (.string "id") [])]), (.rexpr, .mk (.paramRef param) [])]

end GoErp.Db
