import Mathlib.Data.List.Basic
import GoErp.Domain.CompileSql
import GoErp.Lib.Follows
import GoErp.Shell.ConditionLexer

/-!
# `Shell.ConditionParser` — the shell reads a condition

`domain/parser.ts`, the boolean grammar. The levels are those of the engine without `LIKE` and `child_of`. `enter` and
`leave` bound how deep `NOT` and parentheses may nest: `deeper` is the `parseNot` one level further in, or `none`
where the bound is reached. The loops take the length of the unread tokens as fuel.

Each level follows the engine's level of the same name (`Agrees`): what the shell accepts the engine accepts, with the
same tree but for numbers (`parseCondition_follows`).
-/

namespace GoErp.Shell

open Lib Lib.Number List

/-! ## The tree -/

/-- The attributes that a condition may name. -/
inductive UserAttribute where
  | id | contactId | tenantId
  deriving DecidableEq, Repr

inductive Literal where
  | null
  | bool (b : Bool)
  | string (s : JsString)
  | number (q : ℚ)
  deriving DecidableEq

inductive ComparisonOp where
  | eq | ne | lt | gt | le | ge
  deriving DecidableEq, Repr

/-- The shell's tree of a condition. -/
inductive Expr where
  | record (field : JsString)
  | user (attr : UserAttribute)
  | role (role : JsString)
  | permission (permission : JsString)
  | literal (value : Literal)
  | compare (op : ComparisonOp) (left right : Expr)
  | and (left right : Expr)
  | or (left right : Expr)
  | not (operand : Expr)
  | isNull (operand : Expr) (negated : Bool)
  | in_ (operand : Expr) (values : List Expr)

/-! ## The parser -/

/-- A parsing function: the unread tokens to a result and the tokens it leaves. -/
abbrev Parser (α : Type) := List Token → Except ConditionError (α × List Token)

def current : List Token → Token
  | [] => ⟨.eof, [], 0⟩
  | t :: _ => t

/-- The last token (the end of the expression) is never passed. -/
def advance : List Token → List Token
  | [] => []
  | [t] => [t]
  | _ :: t :: ts => t :: ts

/-- `expect`: the current token, if it is of the kind. -/
def expect (kind : TokenKind) (what : String) : Parser Token := fun toks =>
  if (current toks).kind = kind then .ok (current toks, advance toks)
  else .error (.expected what (current toks))

def comparisonOps : TokenKind → Option ComparisonOp
  | .eq => some .eq
  | .neq => some .ne
  | .lt => some .lt
  | .gt => some .gt
  | .lte => some .le
  | .gte => some .ge
  | _ => none

/-- `SEARCH_ONLY_OPS` -/
def searchOnly : TokenKind → Bool
  | .like | .ilike | .childOf | .parentOf => true
  | _ => false

/-- `USER_ATTRIBUTES` -/
def userAttributes (text : JsString) : Option UserAttribute :=
  if text = js "id" then some .id
  else if text = js "contact_id" then some .contactId
  else if text = js "tenant_id" then some .tenantId
  else none

def maxExpressionLength : Nat := 2048

def maxNestingDepth : Nat := 64

/-- `Number(token.text)`; `none` if it is not finite. -/
def numberLiteral (token : Token) : Except ConditionError ℚ :=
  match parseFloat64 (asciiText token.text) with
  | some q => .ok q
  | none => .error (.tooLarge token.text token.pos)

/-- The field after `record`, with its dot. -/
def parseRecordField : Parser JsString := fun toks =>
  if (current toks).kind ≠ .dot then .error (.recordField (current toks).pos)
  else do
    let (field, toks) ← expect .ident "field name" (advance toks)
    .ok (field.text, toks)

/-- The argument of `has_role` and `has_permission`. -/
def parseStringCall : Parser JsString := fun toks => do
  let (_, toks) ← expect .lparen "\"(\"" toks
  let (arg, toks) ← expect .string "string literal argument" toks
  let (_, toks) ← expect .rparen "\")\"" toks
  .ok (arg.text, toks)

/-- `parseIdentifier`: what begins with an identifier. -/
def parseIdentifier : Parser Expr := fun toks =>
  let token := current toks
  let toks := advance toks
  if token.text = js "record" then do
    let (field, toks) ← parseRecordField toks
    .ok (.record field, toks)
  else if token.text = js "current_user" ∨ token.text = js "user" then do
    let (_, toks) ← expect .dot "\".\"" toks
    let (attr, toks) ← expect .ident "user attribute" toks
    match userAttributes attr.text with
    | some a => .ok (.user a, toks)
    | none => .error (.unknownAttribute attr.text attr.pos)
  else if token.text = js "tenant" then .error (.tenant token.pos)
  else if token.text = js "user_has_role" then do
    let (role, toks) ← parseStringCall toks
    .ok (.role role, toks)
  else if token.text = js "user_has_permission" then do
    let (permission, toks) ← parseStringCall toks
    .ok (.permission permission, toks)
  else .error (.unknownIdentifier token.text token.pos)

/-- `inner` parses the expression inside parentheses. -/
def parsePrimary (inner : Parser Expr) : Parser Expr := fun toks =>
  let token := current toks
  match token.kind with
  | .lparen => do
    let (e, toks) ← inner (advance toks)
    let (_, toks) ← expect .rparen "\")\"" toks
    .ok (e, toks)
  | .true_ => .ok (.literal (.bool true), advance toks)
  | .false_ => .ok (.literal (.bool false), advance toks)
  | .null => .ok (.literal .null, advance toks)
  | .string => .ok (.literal (.string token.text), advance toks)
  | .number => do
    let q ← numberLiteral token
    .ok (.literal (.number q), advance toks)
  | .ident => parseIdentifier toks
  | _ => .error (.unexpected token)

/-- The left-associative loop of the comparisons, `AND` and `OR`. -/
def binaryLoop (build : TokenKind → Option (Expr → Expr → Expr)) (operand : Parser Expr) : Nat → Expr → Parser Expr
  | 0, _, _ => .error .outOfFuel
  | fuel + 1, left, toks =>
    match build (current toks).kind with
    | none => .ok (left, toks)
    | some node => do
      let (right, toks) ← operand (advance toks)
      binaryLoop build operand fuel (node left right) toks

/-- One operand, then the loop. -/
def binaryLevel (build : TokenKind → Option (Expr → Expr → Expr)) (operand : Parser Expr) :
    Parser Expr := fun toks => do
  let (left, toks) ← operand toks
  binaryLoop build operand toks.length left toks

def parseComparison (primary : Parser Expr) : Parser Expr :=
  binaryLevel (fun kind => (comparisonOps kind).map .compare) primary

/-- The loop of `parseIsNull`. -/
def isNullLoop : Nat → Expr → Parser Expr
  | 0, _, _ => .error .outOfFuel
  | fuel + 1, left, toks =>
    if (current toks).kind = .is then do
      let toks := advance toks
      let negated := decide ((current toks).kind = .not)
      let (_, toks) ← expect .null "\"NULL\"" (if negated then advance toks else toks)
      isNullLoop fuel (.isNull left negated) toks
    else .ok (left, toks)

def parseIsNull (primary : Parser Expr) : Parser Expr := fun toks => do
  let (left, toks) ← parseComparison primary toks
  isNullLoop toks.length left toks

/-- The values of an `IN` list; `values` are those already read. -/
def parseValues (value : Parser Expr) : Nat → List Expr → Parser (List Expr)
  | 0, _, _ => .error .outOfFuel
  | fuel + 1, values, toks => do
    let (v, toks) ← value toks
    if (current toks).kind = .comma then parseValues value fuel (values ++ [v]) (advance toks)
    else .ok (values ++ [v], toks)

/-- The loop of `parseIn`. -/
def inLoop (value : Parser Expr) : Nat → Expr → Parser Expr
  | 0, _, _ => .error .outOfFuel
  | fuel + 1, left, toks =>
    if (current toks).kind = .in_ then do
      let (_, toks) ← expect .lparen "\"(\"" (advance toks)
      let (values, toks) ← parseValues value toks.length [] toks
      let (_, toks) ← expect .rparen "\")\"" toks
      inLoop value fuel (.in_ left values) toks
    else .ok (left, toks)

def parseIn (primary : Parser Expr) : Parser Expr := fun toks => do
  let (left, toks) ← parseIsNull primary toks
  inLoop (parseIsNull primary) toks.length left toks

def parseAnd (parseNot : Parser Expr) : Parser Expr :=
  binaryLevel (fun kind => if kind = .and then some .and else none) parseNot

/-- `parseOr`, with the `parseNot` one level further in. -/
def parseOr : Option (Parser Expr) → Parser Expr
  | none => fun toks => .error (.nestedTooDeeply (current toks).pos)
  | some parseNot => binaryLevel (fun kind => if kind = .or then some .or else none) (parseAnd parseNot)

/-- `parseNot`, with the `parseNot` one level further in. -/
def parseNotAt (deeper : Option (Parser Expr)) : Parser Expr := fun toks =>
  if (current toks).kind = .not then
    match deeper with
    | none => .error (.nestedTooDeeply (current (advance toks)).pos)
    | some parseNot => do
      let (operand, toks) ← parseNot (advance toks)
      .ok (.not operand, toks)
  else parseIn (parsePrimary (parseOr deeper)) toks

/-- `parseNot` where `left` more levels may be entered. -/
def parseNot : Nat → Parser Expr
  | 0 => parseNotAt none
  | left + 1 => parseNotAt (some (parseNot left))

/-- `parseCondition`: the length, the tokens, the operators of searches, and the tree. -/
def parseCondition (src : JsString) : Except ConditionError Expr := do
  if src.length > maxExpressionLength then .error .tooLong
  else
    let tokens ← tokenize src false
    match tokens.find? fun t => searchOnly t.kind with
    | some t => .error (.searchOnly t.kind t.pos)
    | none =>
      let (expr, toks) ← parseOr (some (parseNot (maxNestingDepth - 1))) tokens
      if (current toks).kind = .eof then .ok expr
      else .error (.unexpected (current toks))

/-! ## The same tree -/

def UserAttribute.text : UserAttribute → String
  | .id => "id"
  | .contactId => "contact_id"
  | .tenantId => "tenant_id"

/-- The engine's name of an operator. -/
def ComparisonOp.engine : ComparisonOp → Domain.BinOp
  | .eq => .eq
  | .ne => .ne
  | .lt => .lt
  | .gt => .gt
  | .le => .le
  | .ge => .ge

section

-- when a number and a numeral are the same
variable (N : ℚ → String → Prop)

/-- A literal is the engine's, where numbers are compared by `N`. -/
def SameLiteral : Literal → Domain.LitValue → Prop
  | .null, .null => True
  | .bool b, .bool b' => b = b'
  | .string s, .string t => SameText s t
  | .number q, .number text => N q text
  | _, _ => False

mutual

/-- The two trees are the same, node for node. -/
def Same : Expr → Domain.Expr → Prop
  | .record f, .recordField g => SameText f g
  | .user attr, .userAttr name => name = attr.text
  | .role r, .roleCheck r' => SameText r r'
  | .permission p, .permCheck p' => SameText p p'
  | .literal v, .literal v' => SameLiteral N v v'
  | .compare op l r, .binary op' l' r' => op' = op.engine ∧ Same l l' ∧ Same r r'
  | .and l r, .binary op' l' r' => op' = .and ∧ Same l l' ∧ Same r r'
  | .or l r, .binary op' l' r' => op' = .or ∧ Same l l' ∧ Same r r'
  | .not e, .not e' => Same e e'
  | .isNull e n, .isNull e' n' => n = n' ∧ Same e e'
  | .in_ e vs, .inList e' vs' => Same e e' ∧ SameList vs vs'
  | _, _ => False

def SameList : List Expr → List Domain.Expr → Prop
  | [], [] => True
  | v :: vs, v' :: vs' => Same v v' ∧ SameList vs vs'
  | _, _ => False

end

end

/-- The number is the `float64` nearest to the numeral. -/
def ReadsNumber (q : ℚ) (text : String) : Prop := parseFloat64 text = some q

/-- The number has the value that the engine gives the numeral. -/
def SameNumber (q : ℚ) (text : String) : Prop :=
  Domain.literalValue (.number text) = .ok (.float q) ∨
    ∃ i : ℤ, Domain.literalValue (.number text) = .ok (.int i) ∧ q = i

/-! ## The levels follow the engine's -/

/-- The unread tokens are the same, at most `n` of them, and none is search-only. -/
structure SameTokens (n : Nat) (toks : List Token) (us : List Domain.Token) : Prop where
  rel : List.Forall₂ (fun t u => SameToken t u.lexeme) toks us
  plain : ∀ t ∈ toks, searchOnly t.kind = false
  ended : Domain.Toks us
  length : us.length ≤ n

/-- The engine's computation follows the shell's. -/
abbrev Runs {α β : Type} (R : α → β → Prop) : Except ConditionError α → Except Domain.ParseError β → Prop :=
  Follows .outOfFuel .outOfFuel R

/-- The results of a level. -/
def Parsed (n : Nat) (r : Expr × List Token) (r' : Domain.Expr × List Domain.Token) : Prop :=
  Same ReadsNumber r.1 r'.1 ∧ SameTokens n r.2 r'.2

/-- A level of the engine's grammar follows the shell's, on at most `n` tokens. -/
def Agrees (n : Nat) (p : Parser Expr) (q : Domain.Parser Domain.Expr) : Prop :=
  ∀ ⦃toks us⦄, SameTokens n toks us → Runs (Parsed n) (p toks) (q us)

theorem SameToken.kind_iff {t : Token} {l : Domain.Lexeme} (h : SameToken t l) {k : TokenKind} {k' : Domain.TokenKind}
    (hk : k.engine? = some k') : t.kind = k ↔ l.1 = k' := by
  have hinj : ∀ {a b : TokenKind}, a.engine? = some k' → b.engine? = some k' → a = b := by
    intro a b ha hb
    cases a <;> cases ha <;> cases b <;> cases hb <;> rfl
  constructor
  · rintro rfl
    exact Option.some.inj (h.kind.symm.trans hk)
  · rintro rfl
    exact hinj h.kind hk

section

variable {n : Nat} {toks : List Token} {us : List Domain.Token}

/-- Both parsers look at one token. -/
theorem SameTokens.current (h : SameTokens n toks us) : SameToken (current toks) (Domain.cur us).lexeme := by
  cases h.rel with
  | nil => exact absurd h.ended.length_pos (Nat.lt_irrefl 0)
  | cons ht _ => exact ht

theorem SameTokens.kind_iff (h : SameTokens n toks us) {k : TokenKind} {k' : Domain.TokenKind}
    (hk : k.engine? = some k') : (Shell.current toks).kind = k ↔ (Domain.cur us).kind = k' := h.current.kind_iff hk

/-- Both parsers pass it. -/
theorem SameTokens.advance (h : SameTokens n toks us) : SameTokens n (advance toks) (Domain.advance us) := by
  refine ⟨?_, ?_, h.ended.advance, Nat.le_trans (Domain.advance_length_le us) h.length⟩
  · cases h.rel with
    | nil => exact .nil
    | cons ht hts =>
      cases hts with
      | nil => exact .cons ht .nil
      | cons hu hus => exact .cons hu hus
  · intro t ht
    refine h.plain t ?_
    match toks, ht with
    | [_], ht => exact ht
    | _ :: _ :: _, ht => exact mem_cons_of_mem _ ht

theorem SameTokens.mono {m : Nat} (h : SameTokens n toks us) (hle : n ≤ m) : SameTokens m toks us :=
  { h with length := Nat.le_trans h.length hle }

/-- Past a token there are fewer. -/
theorem SameTokens.advance_lt (h : SameTokens (n + 1) toks us) (hk : (Domain.cur us).kind ≠ .eof) :
    SameTokens n (Shell.advance toks) (Domain.advance us) :=
  { h.advance with length := Nat.le_of_lt_succ (Nat.lt_of_lt_of_le (h.ended.advance_lt hk) h.length) }

/-- No token is an operator of searches. -/
theorem SameTokens.not_searchOnly (h : SameTokens n toks us) :
    Domain.likeOps (Domain.cur us).kind = none ∧ Domain.treeOps (Domain.cur us).kind = none := by
  have hplain : searchOnly (Shell.current toks).kind = false := by
    cases h.rel with
    | nil => rfl
    | cons _ _ => exact h.plain _ mem_cons_self
  have hne : ∀ {k : TokenKind} {k' : Domain.TokenKind}, k.engine? = some k' → searchOnly k = true →
      (Domain.cur us).kind ≠ k' := by
    intro k k' hk hsearch hcur
    rw [(h.kind_iff hk).mpr hcur, hsearch] at hplain
    cases hplain
  cases hcur : (Domain.cur us).kind with
  | like => exact absurd hcur (hne (k := .like) rfl rfl)
  | ilike => exact absurd hcur (hne (k := .ilike) rfl rfl)
  | childOf => exact absurd hcur (hne (k := .childOf) rfl rfl)
  | parentOf => exact absurd hcur (hne (k := .parentOf) rfl rfl)
  | _ => exact ⟨rfl, rfl⟩

/-- Both parsers expect one token, and find it or do not. -/
theorem expect_follows (h : SameTokens n toks us) {k : TokenKind} {k' : Domain.TokenKind} (hk : k.engine? = some k')
    (what what' : String) : Runs (fun r r' => SameToken r.1 r'.1.lexeme ∧ SameTokens n r.2 r'.2) (expect k what toks)
      (Domain.expect k' what' us) := by
  unfold expect Domain.expect
  by_cases hkind : (Shell.current toks).kind = k
  · rw [if_pos hkind, if_pos ((h.kind_iff hk).mp hkind)]
    exact .ok ⟨h.current, h.advance⟩
  · rw [if_neg hkind]
    exact .refused nofun

end

/-! ### Operands -/

section

variable {n : Nat} {toks : List Token} {us : List Domain.Token}

theorem parseStringCall_follows (h : SameTokens n toks us) {build : String → Domain.Expr} {node : JsString → Expr}
    (hnode : ∀ s t, SameText s t → Same ReadsNumber (node s) (build t)) :
    Runs (Parsed n) (do let (arg, toks) ← parseStringCall toks; .ok (node arg, toks)) (Domain.parseCall build us) := by
  show Runs (Parsed n) (((expect .lparen _ toks) >>= _) >>= _) _
  rw [bind_assoc]
  refine (expect_follows h rfl _ _).bind fun a b hab => ?_
  show Runs (Parsed n) (((expect .string _ a.2) >>= _) >>= _) _
  rw [bind_assoc]
  refine (expect_follows hab.2 rfl _ _).bind fun arg arg' harg => ?_
  show Runs (Parsed n) (((expect .rparen _ arg.2) >>= _) >>= _) _
  rw [bind_assoc]
  refine (expect_follows harg.2 rfl _ _).bind fun c d hcd => ?_
  exact .ok ⟨hnode _ _ harg.1.text, hcd.2⟩

theorem userAttributes_text {text : JsString} {a : UserAttribute} (h : userAttributes text = some a) :
    text = js a.text := by
  unfold userAttributes at h
  split at h
  · cases h; assumption
  split at h
  · cases h; assumption
  split at h
  · cases h; assumption
  · cases h

theorem UserAttribute.sameText (a : UserAttribute) : SameText (js a.text) a.text := by
  cases a <;> exact sameText_literal (by simp [UserAttribute.text])

/-- What the shell reads after an identifier, the engine reads. -/
theorem parseIdentifier_follows (h : SameTokens n toks us) :
    Runs (Parsed n) (parseIdentifier toks) (Domain.parseIdentExpr us) := by
  have hname : ∀ {w : String}, (∀ c ∈ w.toList, c.toNat < 128) → (current toks).text = js w →
      (Domain.cur us).text = w := by
    intro w hw htext
    exact (h.current.text.eq_iff (sameText_literal hw)).mp htext
  have hrest := h.advance
  unfold parseIdentifier Domain.parseIdentExpr
  dsimp only
  split
  · rename_i htext
    rw [hname (by simp) htext]
    unfold parseRecordField
    by_cases hdot : (current (advance toks)).kind = .dot
    · have hdot' := (hrest.kind_iff (k := .dot) rfl).mp hdot
      rw [if_neg (not_not.mpr hdot), if_pos hdot']
      -- the engine expects the dot that the shell has just passed
      have hexpect : ∀ what, Domain.expect .dot what (Domain.advance us) =
          .ok (Domain.cur (Domain.advance us), Domain.advance (Domain.advance us)) := fun what => if_pos hdot'
      rw [Domain.parseAttr, hexpect, bind_assoc]
      refine (expect_follows hrest.advance rfl _ _).bind fun a b hab => ?_
      exact .ok ⟨hab.1.text, hab.2⟩
    · rw [if_pos hdot]
      exact .refused nofun
  split
  · rename_i htext
    have hattr : Runs (Parsed n) (do
        let (_, toks) ← expect .dot "\".\"" (advance toks)
        let (attr, toks) ← expect .ident "user attribute" toks
        match userAttributes attr.text with
        | some a => .ok (.user a, toks)
        | none => .error (.unknownAttribute attr.text attr.pos))
        (Domain.parseAttr "attribute name" .userAttr (Domain.advance us)) := by
      refine (expect_follows hrest rfl _ _).bind fun a b hab => ?_
      refine (expect_follows hab.2 rfl _ _).bind fun attr attr' hattr => ?_
      dsimp only
      cases hua : userAttributes attr.1.text with
      | none => exact .refused nofun
      | some a =>
        have heq : attr'.1.text = a.text :=
          (hattr.1.text.eq_iff a.sameText).mp (userAttributes_text hua)
        exact .ok ⟨heq, hattr.2⟩
    rcases htext with htext | htext
    all_goals
      rw [hname (by simp) htext]
      exact hattr
  split
  · exact .refused nofun
  split
  · rename_i htext
    rw [hname (by simp) htext]
    exact parseStringCall_follows hrest fun _ _ hs => hs
  split
  · rename_i htext
    rw [hname (by simp) htext]
    exact parseStringCall_follows hrest fun _ _ hs => hs
  · exact .refused nofun

/-- Primaries agree, one nesting further in. -/
theorem parsePrimary_agrees {inner : Parser Expr} {inner' : Domain.Parser Domain.Expr}
    (hinner : Agrees n inner inner') :
    Agrees (n + 1) (parsePrimary inner) (Domain.parsePrimary inner') := by
  intro toks us h
  unfold parsePrimary Domain.parsePrimary
  dsimp only
  cases hk : (current toks).kind with
  | lparen =>
    have hk' := (h.kind_iff (k := .lparen) rfl).mp hk
    rw [hk']
    have hopen : (Domain.cur us).kind ≠ .eof := by
      rw [hk']
      nofun
    refine (hinner (h.advance_lt hopen)).bind fun a b hab => ?_
    refine (expect_follows (hab.2.mono (Nat.le_succ n)) rfl _ _).bind fun c d hcd => ?_
    exact .ok ⟨hab.1, hcd.2⟩
  | true_ =>
    rw [(h.kind_iff (k := .true_) rfl).mp hk]
    exact .ok ⟨rfl, h.advance⟩
  | false_ =>
    rw [(h.kind_iff (k := .false_) rfl).mp hk]
    exact .ok ⟨rfl, h.advance⟩
  | null =>
    rw [(h.kind_iff (k := .null) rfl).mp hk]
    exact .ok ⟨trivial, h.advance⟩
  | string =>
    rw [(h.kind_iff (k := .string) rfl).mp hk]
    exact .ok ⟨h.current.text, h.advance⟩
  | number =>
    rw [(h.kind_iff (k := .number) rfl).mp hk]
    have htext : asciiText (current toks).text = (Domain.cur us).text := h.current.ascii (by rw [hk]; nofun)
    unfold numberLiteral
    rw [htext]
    cases hq : parseFloat64 (Domain.cur us).text with
    | none => exact .refused nofun
    | some q => exact .ok ⟨hq, h.advance⟩
  | ident =>
    rw [(h.kind_iff (k := .ident) rfl).mp hk]
    exact parseIdentifier_follows h
  | _ => exact .refused nofun

end

/-! ### Loops and levels -/

section

variable {n : Nat}

/-- A loop of the engine follows one of the shell's, with the same fuel. -/
def LoopAgrees (n : Nat) (loop : Nat → Expr → Parser Expr) (loop' : Nat → Domain.Expr → Domain.Parser Domain.Expr) :
    Prop :=
  ∀ fuel ⦃left left'⦄, Same ReadsNumber left left' → ∀ ⦃toks us⦄, SameTokens n toks us →
    Runs (Parsed n) (loop fuel left toks) (loop' fuel left' us)

variable {q : Domain.Parser Domain.Expr} {p : Parser Expr} {loop' : Nat → Domain.Expr → Domain.Parser Domain.Expr}

/-- A level agrees if its operands and its loop do. -/
theorem level_agrees {loop : Nat → Expr → Parser Expr} (hp : Agrees n p q) (hloop : LoopAgrees n loop loop') :
    Agrees n (fun toks => do let (left, toks) ← p toks; loop toks.length left toks)
      (fun us => do let (left, us) ← q us; loop' us.length left us) := by
  intro toks us h
  refine (hp h).bind fun a b hab => ?_
  show Runs (Parsed n) (loop a.2.length a.1 a.2) (loop' b.2.length b.1 b.2)
  rw [hab.2.rel.length_eq]
  exact hloop _ hab.1 hab.2

/-- The nodes of a binary level are the engine's. -/
def SameOps (build : TokenKind → Option (Expr → Expr → Expr)) (ops : Domain.TokenKind → Option Domain.BinOp) : Prop :=
  ∀ k k', TokenKind.engine? k = some k' → (build k = none ∧ ops k' = none) ∨
    ∃ node op, build k = some node ∧ ops k' = some op ∧
      ∀ l r l' r', Same ReadsNumber l l' → Same ReadsNumber r r' → Same ReadsNumber (node l r) (.binary op l' r')

/-- The loop of a binary level agrees if both know the same operators. -/
theorem binaryLoop_agrees {build : TokenKind → Option (Expr → Expr → Expr)}
    {ops : Domain.TokenKind → Option Domain.BinOp} (hops : SameOps build ops)
    (hp : Agrees n p q) : LoopAgrees n (binaryLoop build p) (Domain.binaryLoop ops q) := by
  intro fuel
  induction fuel with
  | zero => exact fun _ _ _ _ _ _ => .stuck
  | succ fuel ih =>
    intro left left' hleft toks us h
    rw [binaryLoop, Domain.binaryLoop]
    rcases hops _ _ h.current.kind with ⟨hb, ho⟩ | ⟨node, op, hb, ho, hnode⟩
    · rw [hb, show ops (Domain.cur us).kind = none from ho]
      exact .ok ⟨hleft, h⟩
    rw [hb, show ops (Domain.cur us).kind = some op from ho]
    refine (hp h.advance).bind fun a b hab => ?_
    exact ih (hnode _ _ _ _ hleft hab.1) hab.2

theorem comparison_sameOps : SameOps (fun kind => (comparisonOps kind).map .compare) Domain.comparisonOps := by
  have hsome : ∀ {k : TokenKind} {o : ComparisonOp} {k' : Domain.TokenKind}, comparisonOps k = some o →
      Domain.comparisonOps k' = some o.engine → ∃ node op, (comparisonOps k).map Expr.compare = some node ∧
        Domain.comparisonOps k' = some op ∧ ∀ l r l' r', Same ReadsNumber l l' → Same ReadsNumber r r' →
          Same ReadsNumber (node l r) (.binary op l' r') := by
    intro k o k' hk hk'
    exact ⟨.compare o, o.engine, by rw [hk]; rfl, hk', fun _ _ _ _ hl hr => ⟨rfl, hl, hr⟩⟩
  intro k k' hk
  cases k <;> cases hk <;> first | exact .inl ⟨rfl, rfl⟩ | exact .inr (hsome rfl rfl)

theorem and_sameOps : SameOps (fun kind => if kind = .and then some .and else none) Domain.andOps := by
  intro k k' hk
  cases k <;> cases hk <;> first | exact .inl ⟨rfl, rfl⟩ |
    exact .inr ⟨.and, .and, rfl, rfl, fun _ _ _ _ hl hr => ⟨rfl, hl, hr⟩⟩

theorem or_sameOps : SameOps (fun kind => if kind = .or then some .or else none) Domain.orOps := by
  intro k k' hk
  cases k <;> cases hk <;> first | exact .inl ⟨rfl, rfl⟩ |
    exact .inr ⟨.or, .or, rfl, rfl, fun _ _ _ _ hl hr => ⟨rfl, hl, hr⟩⟩

/-- A level of the engine that the tokens do not enter. -/
theorem skip_agrees (hp : Agrees n p q)
    (hloop : ∀ fuel left' ⦃toks us⦄, SameTokens n toks us → loop' (fuel + 1) left' us = .ok (left', us)) :
    Agrees n p (fun us => do let (left, us) ← q us; loop' us.length left us) := by
  intro toks us h
  have hbind := (hp h).bind (f := Except.ok) (g := fun (b : Domain.Expr × List Domain.Token) =>
    loop' b.2.length b.1 b.2) (S := Parsed n) fun a b hab => by
      obtain ⟨fuel, hfuel⟩ := Nat.exists_eq_succ_of_ne_zero (Nat.ne_of_gt hab.2.ended.length_pos)
      rw [hfuel, hloop fuel b.1 hab.2]
      exact .ok hab
  rwa [show (p toks >>= Except.ok) = p toks from bind_pure (p toks)] at hbind

theorem parseComparison_agrees (hp : Agrees n p q) : Agrees n (parseComparison p) (Domain.parseLikeIlike q) := by
  have hcompare : Agrees n (parseComparison p) (Domain.parseComparison q) :=
    level_agrees hp (binaryLoop_agrees comparison_sameOps hp)
  refine skip_agrees hcompare fun fuel left' toks us h => ?_
  rw [Domain.binaryLoop, h.not_searchOnly.1]

theorem isNullLoop_agrees : LoopAgrees n isNullLoop Domain.isNullLoop := by
  intro fuel
  induction fuel with
  | zero => exact fun _ _ _ _ _ _ => .stuck
  | succ fuel ih =>
    intro left left' hleft toks us h
    rw [isNullLoop, Domain.isNullLoop]
    by_cases his : (current toks).kind = .is
    · rw [if_pos his, if_pos ((h.kind_iff (k := .is) rfl).mp his)]
      have hnot := h.advance.kind_iff (k := .not) rfl
      -- an optional `NOT` is passed on both sides
      have hdecide : decide ((Domain.cur (Domain.advance us)).kind = .not) =
          decide ((current (advance toks)).kind = .not) := by rw [decide_eq_decide, hnot]
      have hnext : SameTokens n
          (if decide ((current (advance toks)).kind = .not) then advance (advance toks) else advance toks)
          (if decide ((current (advance toks)).kind = .not) then Domain.advance (Domain.advance us)
            else Domain.advance us) := by
        split
        · exact h.advance.advance
        · exact h.advance
      dsimp only
      rw [hdecide]
      refine (expect_follows hnext rfl _ _).bind fun a b hab => ?_
      have hnode : ∀ negated, Same ReadsNumber (.isNull left negated) (.isNull left' negated) := fun _ => ⟨rfl, hleft⟩
      exact ih (hnode _) hab.2
    · rw [if_neg his, if_neg fun hcur => his ((h.kind_iff (k := .is) rfl).mpr hcur)]
      exact .ok ⟨hleft, h⟩

theorem parseIsNull_agrees (hp : Agrees n p q) : Agrees n (parseIsNull p) (Domain.parseIsNull q) :=
  level_agrees (parseComparison_agrees hp) isNullLoop_agrees

theorem sameList_append {vs ws : List Expr} {vs' ws' : List Domain.Expr} (h : SameList ReadsNumber vs vs')
    (h' : SameList ReadsNumber ws ws') : SameList ReadsNumber (vs ++ ws) (vs' ++ ws') := by
  induction vs generalizing vs' with
  | nil =>
    cases vs' with
    | nil => exact h'
    | cons _ _ => exact h.elim
  | cons v vs ih =>
    cases vs' with
    | nil => exact h.elim
    | cons v' vs' => exact ⟨h.1, ih h.2⟩

/-- The members of a list, one by one. -/
theorem parseValues_follows (hp : Agrees n p q) (fuel : Nat)
    (values : List Expr) (values' : List Domain.Expr) (hvalues : SameList ReadsNumber values values')
    {toks : List Token}
    {us : List Domain.Token} (h : SameTokens n toks us) :
    Runs (fun r r' => SameList ReadsNumber r.1 r'.1 ∧ SameTokens n r.2 r'.2) (parseValues p fuel values toks)
      (Domain.parseValues q fuel values' us) := by
  induction fuel generalizing values values' toks us with
  | zero => exact .stuck
  | succ fuel ih =>
    refine (hp h).bind fun a b hab => ?_
    have hmore : SameList ReadsNumber (values ++ [a.1]) (values' ++ [b.1]) :=
      sameList_append hvalues ⟨hab.1, trivial⟩
    dsimp only
    by_cases hcomma : (current a.2).kind = .comma
    · rw [if_pos hcomma, if_pos ((hab.2.kind_iff (k := .comma) rfl).mp hcomma)]
      exact ih _ _ hmore hab.2.advance
    · rw [if_neg hcomma, if_neg fun hcur => hcomma ((hab.2.kind_iff (k := .comma) rfl).mpr hcur)]
      exact .ok ⟨hmore, hab.2⟩

theorem inLoop_agrees (hp : Agrees n p q) : LoopAgrees n (inLoop p) (Domain.inLoop q) := by
  intro fuel
  induction fuel with
  | zero => exact fun _ _ _ _ _ _ => .stuck
  | succ fuel ih =>
    intro left left' hleft toks us h
    rw [inLoop, Domain.inLoop]
    by_cases hin : (current toks).kind = .in_
    · rw [if_pos hin, if_pos ((h.kind_iff (k := .in_) rfl).mp hin)]
      refine (expect_follows h.advance rfl _ _).bind fun a b hab => ?_
      show Runs (Parsed n) (parseValues p a.2.length [] a.2 >>= _) (Domain.parseValues q b.2.length [] b.2 >>= _)
      rw [hab.2.rel.length_eq]
      refine (parseValues_follows hp _ [] [] trivial hab.2).bind fun vs vs' hvs => ?_
      refine (expect_follows hvs.2 rfl _ _).bind fun c d hcd => ?_
      have hnode : Same ReadsNumber (.in_ left vs.1) (.inList left' vs'.1) := ⟨hleft, hvs.1⟩
      exact ih hnode hcd.2
    · rw [if_neg hin, if_neg fun hcur => hin ((h.kind_iff (k := .in_) rfl).mpr hcur)]
      exact .ok ⟨hleft, h⟩

theorem parseIn_agrees (hp : Agrees n p q) : Agrees n (parseIn p) (Domain.parseChildOf q) := by
  have hin : Agrees n (parseIn p) (Domain.parseIn q) :=
    level_agrees (parseIsNull_agrees hp) (inLoop_agrees (parseIsNull_agrees hp))
  refine skip_agrees hin fun fuel left' toks us h => ?_
  rw [Domain.childOfLoop, h.not_searchOnly.2]

theorem parseNotAt_agrees {deeper : Option (Parser Expr)}
    (hnot : ∀ p ∈ deeper, ∀ m, Agrees (m + 1) p (Domain.parseNot (Domain.parsePrimary (Domain.parseOr m))))
    (hor : ∀ m, Agrees m (parseOr deeper) (Domain.parseOr m)) (m : Nat) :
    Agrees (m + 1) (parseNotAt deeper) (Domain.parseNot (Domain.parsePrimary (Domain.parseOr m))) := by
  intro toks us h
  obtain ⟨fuel, hfuel⟩ := Nat.exists_eq_succ_of_ne_zero (Nat.ne_of_gt h.ended.length_pos)
  rw [Domain.parseNot, hfuel, Domain.parseNotFrom]
  unfold parseNotAt
  by_cases hk : (current toks).kind = .not
  · have hk' := (h.kind_iff (k := .not) rfl).mp hk
    rw [if_pos hk, if_neg (not_not.mpr hk')]
    cases deeper with
    | none => exact .refused (by rintro ⟨⟩)
    | some p =>
      -- one token is passed, so the fuel left is the length of the others
      have hlength : (Domain.advance us).length = fuel := by
        have hended := h.ended
        rcases us with - | ⟨t, - | ⟨t', us⟩⟩
        · cases hfuel
        · exact absurd hended.terminated (by simp [Domain.EofTerminated, show t.kind = .not from hk'])
        · exact Nat.succ.inj hfuel
      have hrun := hnot p rfl m h.advance
      rw [Domain.parseNot, hlength] at hrun
      refine hrun.bind fun a b hab => ?_
      exact .ok ⟨hab.1, hab.2⟩
  · rw [if_neg hk, if_pos fun hcur => hk ((h.kind_iff (k := .not) rfl).mpr hcur)]
    exact parseIn_agrees (parsePrimary_agrees (hor m)) h

/-- `parseOr` one level further in, if there is one. -/
theorem parseOr_agrees {deeper : Option (Parser Expr)}
    (hnot : ∀ p ∈ deeper, ∀ m, Agrees (m + 1) p (Domain.parseNot (Domain.parsePrimary (Domain.parseOr m)))) (m : Nat) :
    Agrees m (parseOr deeper) (Domain.parseOr m) := by
  cases deeper with
  | none => exact fun _ _ _ => .refused nofun
  | some p =>
    cases m with
    | zero => exact fun _ _ h => absurd h.ended.length_pos (Nat.not_lt.mpr h.length)
    | succ m =>
      have hand := level_agrees (hnot p rfl m) (binaryLoop_agrees and_sameOps (hnot p rfl m))
      exact level_agrees hand (binaryLoop_agrees or_sameOps hand)

/-- At every depth that the shell allows, both read one tree. -/
theorem parseNot_agrees (left m : Nat) :
    Agrees (m + 1) (parseNot left) (Domain.parseNot (Domain.parsePrimary (Domain.parseOr m))) := by
  induction left generalizing m with
  | zero =>
    have hnot : ∀ p ∈ (none : Option (Parser Expr)), ∀ m,
        Agrees (m + 1) p (Domain.parseNot (Domain.parsePrimary (Domain.parseOr m))) := by
      rintro p hp
      cases hp
    exact parseNotAt_agrees hnot (parseOr_agrees hnot) m
  | succ left ih =>
    have hnot : ∀ p ∈ some (parseNot left), ∀ m,
        Agrees (m + 1) p (Domain.parseNot (Domain.parsePrimary (Domain.parseOr m))) := by
      rintro p hp m
      cases hp
      exact ih m
    exact parseNotAt_agrees hnot (parseOr_agrees hnot) m

end

/-! ## The whole condition -/

/-- The engine's tokens of a text the shell can read. -/
theorem sameTokens_of_tokenize {src : String} {toks : List Token} (h : tokenize (js src) false = .ok toks)
    (hplain : ∀ t ∈ toks, searchOnly t.kind = false) :
    ∃ us, Domain.tokenize (goString src) = .ok us ∧ SameTokens us.length toks us := by
  obtain ⟨ls, hspells, hrel⟩ := tokenize_spells h
  obtain ⟨us, hus, hmap⟩ := Domain.tokenize_of_spells hspells
  refine ⟨us, hus, ?_, hplain, Domain.tokenize_toks hus, Nat.le_refl _⟩
  rw [← hmap] at hrel
  exact forall₂_map_right_iff.mp hrel

/-- What the shell accepts, the engine reads to the same tree, numbers as each of them reads numerals. -/
theorem parseCondition_follows (src : String) :
    Runs (Same ReadsNumber) (parseCondition (js src)) (Domain.parse (goString src)) := by
  unfold parseCondition
  split
  · exact .refused nofun
  cases htoks : tokenize (js src) false with
  | error e =>
    refine .refused fun he => tokenize_ne_outOfFuel (js src) false ?_
    rw [htoks, he]
  | ok toks =>
    show Runs _ (match toks.find? fun t => searchOnly t.kind with | some t => _ | none => _) _
    split
    · exact .refused nofun
    rename_i hfind
    have hplain : ∀ t ∈ toks, searchOnly t.kind = false := by
      intro t ht
      have hnot := find?_eq_none.mp hfind t ht
      exact Bool.eq_false_iff.mpr hnot
    obtain ⟨us, hus, hsame⟩ := sameTokens_of_tokenize htoks hplain
    unfold Domain.parse
    rw [hus]
    have hor : Agrees us.length (parseOr (some (parseNot (maxNestingDepth - 1)))) (Domain.parseOr us.length) := by
      refine parseOr_agrees ?_ us.length
      rintro p hp m
      cases hp
      exact parseNot_agrees _ m
    refine (hor hsame).bind fun a b hab => ?_
    dsimp only
    by_cases heof : (current a.2).kind = .eof
    · rw [if_pos heof, if_pos ((hab.2.kind_iff (k := .eof) rfl).mp heof)]
      exact .ok hab.1
    · rw [if_neg heof]
      exact .refused nofun

/-- The shell's bounds on its loops are never what stops it. -/
theorem parseCondition_ne_outOfFuel (src : String) : parseCondition (js src) ≠ .error .outOfFuel :=
  (parseCondition_follows src).ne_stuck (Domain.parse_ne_outOfFuel _)

/-! ## Numbers -/

/-- A number read as a `float64` has the engine's value unless it is an integer that `float64` cannot hold. -/
theorem sameNumber_iff {q : ℚ} {text : String} (h : ReadsNumber q text) :
    SameNumber q text ↔ ∀ i, parseInt64 text = some i → roundFloat64 i = some (i : ℚ) := by
  have hread : parseFloat64 text = some q := h
  cases hi : parseInt64 text with
  | none =>
    have hvalue : Domain.literalValue (.number text) = .ok (.float q) := by simp only [Domain.literalValue, hi, hread]
    exact ⟨fun _ _ hsome => absurd hsome (Option.some_ne_none _).symm, fun _ => .inl hvalue⟩
  | some i =>
    have hvalue : Domain.literalValue (.number text) = .ok (.int i) := by simp only [Domain.literalValue, hi]
    -- the shell rounds the integer
    have hround : roundFloat64 i = some q := by
      rw [parseFloat64, decimal?_of_parseInt64 hi] at hread
      exact hread
    rw [SameNumber, hvalue]
    constructor
    · rintro (hfloat | ⟨j, hj, rfl⟩)
      · cases hfloat
      cases hj
      intro j hj
      cases hj
      exact hround
    · intro hexact
      refine .inr ⟨i, rfl, ?_⟩
      rw [hexact i rfl] at hround
      exact (Option.some.inj hround).symm

theorem sameList_iff_exactInts {vs : List Expr} {vs' : List Domain.Expr}
    (ih : ∀ v' ∈ vs', ∀ v, Same ReadsNumber v v' → (Same SameNumber v v' ↔ Domain.ExactInts v'))
    (h : SameList ReadsNumber vs vs') : SameList SameNumber vs vs' ↔ ∀ v' ∈ vs', Domain.ExactInts v' := by
  induction vs generalizing vs' with
  | nil =>
    cases vs' with
    | nil => exact ⟨nofun, fun _ => trivial⟩
    | cons _ _ => exact h.elim
  | cons v vs ihvs =>
    cases vs' with
    | nil => exact h.elim
    | cons v' vs' =>
      have hrest := ihvs (fun w hw => ih w (mem_cons_of_mem v' hw)) h.2
      rw [forall_mem_cons, ← ih v' mem_cons_self v h.1, ← hrest]
      rfl

theorem mem_numeralsList {text : String} {vs : List Domain.Expr} :
    text ∈ Domain.numeralsList vs ↔ ∃ v ∈ vs, text ∈ Domain.numerals v := by
  induction vs with
  | nil => simp [Domain.numeralsList]
  | cons v vs ih => simp [Domain.numeralsList, ih]

/-- The trees are the same in their numbers as well exactly if `float64` holds every integer literal. -/
theorem same_iff_exactInts {e : Expr} {e' : Domain.Expr} (h : Same ReadsNumber e e') :
    Same SameNumber e e' ↔ Domain.ExactInts e' := by
  have hnone : ∀ {d : Domain.Expr}, Domain.numerals d = [] → Domain.ExactInts d := by
    intro d hd text htext
    rw [hd] at htext
    cases htext
  have hpair : ∀ {op : Domain.BinOp} {l r : Domain.Expr},
      Domain.ExactInts (.binary op l r) ↔ Domain.ExactInts l ∧ Domain.ExactInts r := by
    intro op l r
    exact forall_mem_append
  induction e' generalizing e with
  | recordField field | userAttr attr | roleCheck role | permCheck perm =>
    cases e <;> first | exact h.elim | exact iff_of_true h (hnone rfl)
  | tenantAttr field => cases e <;> exact h.elim
  | literal value =>
    cases e with
    | literal v =>
      cases value with
      | number text =>
        cases v with
        | number q =>
          show SameNumber q text ↔ ∀ t ∈ [text], _
          rw [forall_mem_singleton]
          exact sameNumber_iff h
        | _ => exact h.elim
      | _ => cases v <;> first | exact h.elim | exact iff_of_true h (hnone rfl)
    | _ => exact h.elim
  | binary op l r ihl ihr =>
    have hnode : ∀ {P : Prop} {a b : Expr}, P ∧ Same ReadsNumber a l ∧ Same ReadsNumber b r →
        (P ∧ Same SameNumber a l ∧ Same SameNumber b r ↔ Domain.ExactInts (.binary op l r)) := by
      rintro P a b ⟨hP, ha, hb⟩
      have hl : Same SameNumber a l ↔ Domain.ExactInts l := ihl ha
      have hr : Same SameNumber b r ↔ Domain.ExactInts r := ihr hb
      rw [hl, hr, hpair]
      exact and_iff_right hP
    cases e with
    | compare o a b => exact hnode h
    | and a b => exact hnode h
    | or a b => exact hnode h
    | _ => exact h.elim
  | not operand ih =>
    cases e with
    | not a => exact ih h
    | _ => exact h.elim
  | isNull operand n ih =>
    cases e with
    | isNull a m =>
      have ha : Same SameNumber a operand ↔ Domain.ExactInts operand := ih h.2
      show m = n ∧ Same SameNumber a operand ↔ Domain.ExactInts operand
      rw [ha]
      exact and_iff_right h.1
    | _ => exact h.elim
  | inList operand values ih ihs =>
    cases e with
    | in_ a vs =>
      have ha : Same SameNumber a operand ↔ Domain.ExactInts operand := ih h.1
      have hvs := sameList_iff_exactInts (fun v hv _ hw => ihs v hv hw) h.2
      show Same SameNumber a operand ∧ SameList SameNumber vs values ↔ _
      rw [ha, hvs]
      show _ ↔ ∀ text ∈ Domain.numerals operand ++ Domain.numeralsList values, _
      rw [forall_mem_append]
      refine and_congr_right fun _ => ?_
      simp only [mem_numeralsList, Domain.ExactInts]
      exact ⟨fun hall text ⟨v, hv, htext⟩ => hall v hv text htext, fun hall v hv text htext => hall text ⟨v, hv, htext⟩⟩
    | _ => exact h.elim
  | tree op target _ => cases e <;> exact h.elim

/-- **What the shell parses the engine parses, to the same tree.** The numbers in it have the same values exactly if
    `float64` can hold every integer literal. -/
theorem parseCondition_same_iff (src : String) {e : Expr} (h : parseCondition (js src) = .ok e) :
    ∃ e', Domain.parse (goString src) = .ok e' ∧ (Same SameNumber e e' ↔ Domain.ExactInts e') := by
  obtain ⟨e', hparse, hsame⟩ := (parseCondition_follows src).of_ok h
  exact ⟨e', hparse, same_iff_exactInts hsame⟩

theorem exists_of_isOk (src : JsString) (h : (parseCondition src).isOk = true) : ∃ e, parseCondition src = .ok e := by
  cases hparse : parseCondition src with
  | ok e => exact ⟨e, rfl⟩
  | error _ =>
    rw [hparse] at h
    cases h

theorem parseCondition_same_quantity : ∃ e e', parseCondition (js "record.n < 3") = .ok e ∧
    Domain.parse (goString "record.n < 3") = .ok e' ∧ Same SameNumber e e' := by
  obtain ⟨e, he⟩ := exists_of_isOk (js "record.n < 3") (by decide +kernel)
  obtain ⟨e', he', hiff⟩ := parseCondition_same_iff "record.n < 3" he
  have htree : Domain.parse (goString "record.n < 3") =
      .ok (.binary .lt (.recordField "n") (.literal (.number "3"))) := by decide +kernel
  cases he'.symm.trans htree
  refine ⟨e, _, he, he', hiff.mpr ?_⟩
  have hint : parseInt64 "3" = some 3 := by decide +kernel
  have hround : roundFloat64 3 = some 3 := by decide +kernel
  intro text htext i hi
  obtain rfl : text = "3" := by simpa [Domain.numerals] using htext
  rw [hint] at hi
  cases hi
  exact hround

/-- The shell rounds an integer literal that the engine takes as it is. -/
theorem parseCondition_rounds_integer : ¬ ∀ (src : String) (e : Expr), parseCondition (js src) = .ok e →
    ∃ e', Domain.parse (goString src) = .ok e' ∧ Same SameNumber e e' := by
  intro hparses
  obtain ⟨e, he⟩ := exists_of_isOk (js "record.n = 9007199254740993") (by decide +kernel)
  obtain ⟨e', he', hsame⟩ := hparses _ e he
  obtain ⟨e'', he'', hread⟩ := (parseCondition_follows _).of_ok he
  cases he'.symm.trans he''
  have htree : Domain.parse (goString "record.n = 9007199254740993") =
      .ok (.binary .eq (.recordField "n") (.literal (.number "9007199254740993"))) := by decide +kernel
  cases he'.symm.trans htree
  have hint : parseInt64 "9007199254740993" = some 9007199254740993 := by decide +kernel
  have hround : roundFloat64 9007199254740993 = some 9007199254740992 := by decide +kernel
  have hexact : roundFloat64 9007199254740993 = some 9007199254740993 :=
    (same_iff_exactInts hread).mp hsame "9007199254740993" (by simp [Domain.numerals]) _ hint
  rw [hround] at hexact
  norm_num at hexact

end GoErp.Shell
