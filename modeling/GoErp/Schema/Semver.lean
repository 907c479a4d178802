import Mathlib.Data.List.Sort

/-!
# `Schema.Semver` — versions and constraints

Parsing, ordering and constraint checks come from `Masterminds/semver` and are a parameter (`Semver`); what the
engine adds is the search for the one version that a migration's `to_version` names (`MigrationBoundaryVersion`,
`schema/migration_range.go`). `Semver.triples` is the fragment of the library with plain versions and the
operators `<`, `<=`, `>`, `>=` and `=`.
-/

namespace GoErp.Schema

/-- `Masterminds/semver`. -/
structure Semver where
  Version : Type
  Constraint : Type
  newVersion : String → Option Version
  newConstraint : String → Option Constraint
  check : Constraint → Version → Bool
  /-- `Version.Compare`, as "not greater than" -/
  le : Version → Version → Bool
  /-- `Version.String` -/
  string : Version → String

/-- What the library guarantees of `Version.Compare`. -/
structure Semver.Ordered (S : Semver) : Prop where
  total : ∀ v w, S.le v w = true ∨ S.le w v = true
  trans : ∀ u v w, S.le u v = true → S.le v w = true → S.le u w = true

theorem Semver.Ordered.refl {S : Semver} (hS : S.Ordered) (v : S.Version) : S.le v v = true :=
  or_self_iff.mp (hS.total v v)

theorem Semver.Ordered.total_on {S : Semver} (hS : S.Ordered) {α : Type} (f : α → S.Version) :
    Std.Total fun a b => S.le (f a) (f b) = true :=
  ⟨fun a b => hS.total (f a) (f b)⟩

theorem Semver.Ordered.trans_on {S : Semver} (hS : S.Ordered) {α : Type} (f : α → S.Version) :
    IsTrans α fun a b => S.le (f a) (f b) = true :=
  ⟨fun a b c => hS.trans (f a) (f b) (f c)⟩

/-! ## The boundary of a migration -/

def isSuffixChar (c : Char) : Bool := c.isAlphanum || c == '.' || c == '-'

/-- `(?:MARK[0-9A-Za-z.-]+)?` at the front of the text: what it matches, and the rest. -/
def takeSuffix (mark : Char) : List Char → List Char × List Char
  | c :: cs =>
    if c = mark ∧ (cs.takeWhile isSuffixChar) ≠ [] then
      (c :: cs.takeWhile isSuffixChar, cs.dropWhile isSuffixChar)
    else ([], c :: cs)
  | [] => ([], [])

/-- `\d+\.` or, at the end, `\d+` at the front of the text. -/
def takeNumber (cs : List Char) (dot : Bool) : Option (List Char × List Char) :=
  match cs.takeWhile (·.isDigit), cs.dropWhile (·.isDigit) with
  | [], _ => none
  | ds, rest =>
    if dot then
      match rest with
      | '.' :: rest' => some (ds ++ ['.'], rest')
      | _ => none
    else some (ds, rest)

/-- `boundaryVersionPattern` at the front of the text. -/
def matchBoundary (cs : List Char) : Option (List Char) := do
  let (major, cs) ← takeNumber cs true
  let (minor, cs) ← takeNumber cs true
  let (patch, cs) ← takeNumber cs false
  let (pre, cs) := takeSuffix '-' cs
  let (build, _) := takeSuffix '+' cs
  return major ++ minor ++ patch ++ pre ++ build

/-- `FindString`: the leftmost match. -/
def findBoundary : List Char → Option (List Char)
  | [] => none
  | c :: cs =>
    match matchBoundary (c :: cs) with
    | some m => some m
    | none => findBoundary cs

example : findBoundary ">= 1.10.0-rc.1, < 2.0.0".toList = some "1.10.0-rc.1".toList := by decide

/-- `migrationBoundaryVersion`: the first version that the constraint names. -/
def Semver.migrationBoundaryVersion (S : Semver) (toVersion : String) : Option S.Version := do
  let m ← findBoundary toVersion.toList
  S.newVersion (String.ofList m)

/-! ## A fragment of the library -/

/-- Splits at every occurrence of the character. -/
def splitAt (c : Char) : List Char → List (List Char)
  | [] => [[]]
  | x :: xs =>
    match splitAt c xs with
    | [] => [[x]]
    | y :: ys => if x = c then [] :: y :: ys else (x :: y) :: ys

/-- A number without a sign. -/
def natOf? (cs : List Char) : Option Nat :=
  if cs ≠ [] ∧ cs.all (·.isDigit) then some (cs.foldl (fun n c => n * 10 + (c.toNat - '0'.toNat)) 0) else none

/-- `major.minor.patch` -/
def tripleOf? (cs : List Char) : Option (List Nat) :=
  match (splitAt '.' cs).mapM natOf? with
  | some [a, b, c] => some [a, b, c]
  | _ => none

/-- The comparisons of a constraint. -/
inductive Comparison where
  | lt
  | le
  | gt
  | ge
  | eq
deriving DecidableEq, Repr

def comparisonOf? : List Char → Option (Comparison × List Nat)
  | '<' :: '=' :: cs => (tripleOf? cs).map (.le, ·)
  | '<' :: cs => (tripleOf? cs).map (.lt, ·)
  | '>' :: '=' :: cs => (tripleOf? cs).map (.ge, ·)
  | '>' :: cs => (tripleOf? cs).map (.gt, ·)
  | cs => (tripleOf? cs).map (.eq, ·)

/-- The order of versions, number by number. -/
def lexLe : List Nat → List Nat → Bool
  | [], _ => true
  | _ :: _, [] => false
  | a :: as, b :: bs => a < b || (a == b && lexLe as bs)

/-- Whether a version meets a comparison. -/
def Comparison.holds (c : Comparison) (v w : List Nat) : Bool :=
  match c with
  | .lt => !lexLe w v
  | .le => lexLe v w
  | .gt => !lexLe v w
  | .ge => lexLe w v
  | .eq => v == w

/-- Versions `MAJOR.MINOR.PATCH`; a constraint is a list of comparisons between commas. -/
def Semver.triples : Semver where
  Version := List Nat
  Constraint := List (Comparison × List Nat)
  newVersion s := tripleOf? s.toList
  newConstraint s := (splitAt ',' s.toList).mapM comparisonOf?
  check cs v := cs.all fun c => c.1.holds v c.2
  le := lexLe
  string v := String.ofList (List.intercalate ['.'] (v.map (Nat.toDigits 10)))

theorem lexLe_total (v w : List Nat) : lexLe v w = true ∨ lexLe w v = true := by
  induction v generalizing w with
  | nil => exact .inl rfl
  | cons a v ih =>
    cases w with
    | nil => exact .inr rfl
    | cons b w =>
      have hrest := ih w
      simp only [lexLe, Bool.or_eq_true, Bool.and_eq_true, decide_eq_true_eq, beq_iff_eq]
      rcases Nat.lt_trichotomy a b with h | h | h
      · exact .inl (.inl h)
      · exact hrest.imp (fun hle => .inr ⟨h, hle⟩) fun hle => .inr ⟨h.symm, hle⟩
      · exact .inr (.inl h)

theorem lexLe_trans (u v w : List Nat) (huv : lexLe u v = true) (hvw : lexLe v w = true) : lexLe u w = true := by
  induction u generalizing v w with
  | nil => rfl
  | cons a u ih =>
    cases v with
    | nil => cases huv
    | cons b v =>
      cases w with
      | nil => cases hvw
      | cons c w =>
        simp only [lexLe, Bool.or_eq_true, Bool.and_eq_true, decide_eq_true_eq, beq_iff_eq] at huv hvw ⊢
        rcases huv with hab | ⟨rfl, huv⟩ <;> rcases hvw with hbc | ⟨rfl, hvw⟩
        · exact .inl (hab.trans hbc)
        · exact .inl hab
        · exact .inl hbc
        · exact .inr ⟨rfl, ih v w huv hvw⟩

/-- Versions of three numbers are ordered as the plan needs it. -/
theorem Semver.triples_ordered : Semver.triples.Ordered := ⟨lexLe_total, lexLe_trans⟩

end GoErp.Schema
