import GoErp.Domain.Ast
import GoErp.Domain.Lexer
import GoErp.Lib.Except

/-!
# `Domain.Parser` — recursive descent over the token list

`domain/parser.go`. Each precedence level is a function of the level below it; `parseOr n` may open `n` parentheses.
The loops take the length of the unread tokens as fuel.

`Good n p` collects what every level guarantees: a parse consumes tokens, its tree is `WellFormed` (its identifiers
and numerals are the lexer's), and on at most `n` tokens it does not run out of fuel.
-/

namespace GoErp.Domain

open Lib

/-- The parser's errors, with the data their messages print. -/
inductive ParseError where
  | lex (e : LexError)
  /-- `domain: expected %s at position %d, got %q` -/
  | expected (what : String) (pos : Nat) (got : String)
  /-- `domain: unexpected token %q at position %d` -/
  | unexpectedToken (text : String) (pos : Nat)
  /-- `domain: %s must follow the bare record keyword at position %d` -/
  | treeOperand (text : String) (pos : Nat)
  /-- `domain: bare record must be followed by child_of/parent_of at position %d, got %q` -/
  | bareRecord (pos : Nat) (got : String)
  /-- `domain: unknown identifier %q at position %d` -/
  | unknownIdentifier (name : String) (pos : Nat)
  | outOfFuel
  deriving DecidableEq, Repr

/-- A parsing function: the unread tokens to a result and the tokens it leaves. -/
abbrev Parser (α : Type) := List Token → Except ParseError (α × List Token)

def cur : List Token → Token
  | [] => ⟨.eof, "", 0⟩
  | t :: _ => t

/-- The last token (the end of input) is never passed. -/
def advance : List Token → List Token
  | [] => []
  | [t] => [t]
  | _ :: t :: ts => t :: ts

/-- `expect`: the current token, if it is of the kind. -/
def expect (kind : TokenKind) (what : String) : Parser Token := fun toks =>
  if (cur toks).kind = kind then .ok (cur toks, advance toks)
  else .error (.expected what (cur toks).pos (cur toks).text)

/-- `has_role(…)` and `has_permission(…)`. -/
def parseCall (build : String → Expr) : Parser Expr := fun toks => do
  let (_, toks) ← expect .lparen "'('" toks
  let (arg, toks) ← expect .string "string literal argument" toks
  let (_, toks) ← expect .rparen "')'" toks
  .ok (build arg.text, toks)

/-- `.` and an identifier, wrapped by `build`. -/
def parseAttr (what : String) (build : String → Expr) : Parser Expr := fun toks => do
  let (_, toks) ← expect .dot "'.'" toks
  let (attr, toks) ← expect .ident what toks
  .ok (build attr.text, toks)

/-- What begins with an identifier; a bare `record` is left for `child_of`. -/
def parseIdentExpr : Parser Expr := fun toks =>
  let name := cur toks
  let rest := advance toks
  match name.text with
  | "record" =>
    if (cur rest).kind = .dot then parseAttr "field name" .recordField rest
    -- Bare `record` is only valid right before child_of/parent_of.
    else if (cur rest).kind ≠ .childOf ∧ (cur rest).kind ≠ .parentOf then
      .error (.bareRecord (cur rest).pos (cur rest).text)
    else .ok (.recordField "", rest)
  | "current_user" => parseAttr "attribute name" .userAttr rest
  | "user" => parseAttr "attribute name" .userAttr rest
  | "tenant" => parseAttr "field name" .tenantAttr rest
  | "user_has_role" => parseCall .roleCheck rest
  | "user_has_permission" => parseCall .permCheck rest
  | _ => .error (.unknownIdentifier name.text name.pos)

/-- `inner` parses the expression inside parentheses. -/
def parsePrimary (inner : Parser Expr) : Parser Expr := fun toks =>
  let tok := cur toks
  match tok.kind with
  | .lparen => do
    let (e, toks) ← inner (advance toks)
    let (_, toks) ← expect .rparen "')'" toks
    .ok (e, toks)
  | .true_ => .ok (.literal (.bool true), advance toks)
  | .false_ => .ok (.literal (.bool false), advance toks)
  | .null => .ok (.literal .null, advance toks)
  | .string => .ok (.literal (.string tok.text), advance toks)
  | .number => .ok (.literal (.number tok.text), advance toks)
  | .ident => parseIdentExpr toks
  | _ => .error (.unexpectedToken tok.text tok.pos)

def comparisonOps : TokenKind → Option BinOp
  | .eq => some .eq
  | .neq => some .ne
  | .lt => some .lt
  | .gt => some .gt
  | .lte => some .le
  | .gte => some .ge
  | _ => none

def likeOps : TokenKind → Option BinOp
  | .like => some .like
  | .ilike => some .ilike
  | _ => none

def andOps : TokenKind → Option BinOp
  | .and => some .and
  | _ => none

def orOps : TokenKind → Option BinOp
  | .or => some .or
  | _ => none

/-- The left-associative loop the four binary levels share. -/
def binaryLoop (ops : TokenKind → Option BinOp) (operand : Parser Expr) : Nat → Expr → Parser Expr
  | 0, _, _ => .error .outOfFuel
  | fuel + 1, left, toks =>
    match ops (cur toks).kind with
    | none => .ok (left, toks)
    | some op => do
      let (right, toks) ← operand (advance toks)
      binaryLoop ops operand fuel (.binary op left right) toks

/-- One operand, then the loop. -/
def binaryLevel (ops : TokenKind → Option BinOp) (operand : Parser Expr) : Parser Expr := fun toks => do
  let (left, toks) ← operand toks
  binaryLoop ops operand toks.length left toks

def parseComparison (primary : Parser Expr) : Parser Expr := binaryLevel comparisonOps primary

def parseLikeIlike (primary : Parser Expr) : Parser Expr := binaryLevel likeOps (parseComparison primary)

/-- The loop of `parseIsNull`. -/
def isNullLoop : Nat → Expr → Parser Expr
  | 0, _, _ => .error .outOfFuel
  | fuel + 1, left, toks =>
    if (cur toks).kind = .is then do
      let toks := advance toks
      let not := decide ((cur toks).kind = .not)
      let (_, toks) ← expect .null "'NULL'" (if not then advance toks else toks)
      isNullLoop fuel (.isNull left not) toks
    else .ok (left, toks)

def parseIsNull (primary : Parser Expr) : Parser Expr := fun toks => do
  let (left, toks) ← parseLikeIlike primary toks
  isNullLoop toks.length left toks

/-- The comma-separated values of an `IN` list; `acc` holds those already read. -/
def parseValues (value : Parser Expr) : Nat → List Expr → Parser (List Expr)
  | 0, _, _ => .error .outOfFuel
  | fuel + 1, acc, toks => do
    let (v, toks) ← value toks
    if (cur toks).kind = .comma then parseValues value fuel (acc ++ [v]) (advance toks)
    else .ok (acc ++ [v], toks)

/-- The loop of `parseIn`. -/
def inLoop (value : Parser Expr) : Nat → Expr → Parser Expr
  | 0, _, _ => .error .outOfFuel
  | fuel + 1, left, toks =>
    if (cur toks).kind = .in_ then do
      let (_, toks) ← expect .lparen "'('" (advance toks)
      let (values, toks) ← parseValues value toks.length [] toks
      let (_, toks) ← expect .rparen "')'" toks
      inLoop value fuel (.inList left values) toks
    else .ok (left, toks)

def parseIn (primary : Parser Expr) : Parser Expr := fun toks => do
  let (left, toks) ← parseIsNull primary toks
  inLoop (parseIsNull primary) toks.length left toks

def isBareRecord : Expr → Bool
  | .recordField field => field == ""
  | _ => false

/-- The operators of the tree. -/
def treeOps : TokenKind → Option TreeOp
  | .childOf => some .childOf
  | .parentOf => some .parentOf
  | _ => none

/-- The loop of `parseChildOf`, whose left side must be the bare record. -/
def childOfLoop (operand : Parser Expr) : Nat → Expr → Parser Expr
  | 0, _, _ => .error .outOfFuel
  | fuel + 1, left, toks =>
    match treeOps (cur toks).kind with
    | none => .ok (left, toks)
    | some op =>
      if isBareRecord left then do
        let (target, toks) ← operand (advance toks)
        childOfLoop operand fuel (.tree op target) toks
      else .error (.treeOperand (cur toks).text (cur toks).pos)

def parseChildOf (primary : Parser Expr) : Parser Expr := fun toks => do
  let (left, toks) ← parseIn primary toks
  childOfLoop (parseIn primary) toks.length left toks

/-- `parseNot`, which calls itself after every `NOT`. -/
def parseNotFrom (operand : Parser Expr) : Nat → Parser Expr
  | 0, _ => .error .outOfFuel
  | fuel + 1, toks =>
    if (cur toks).kind ≠ .not then operand toks
    else do
      let (e, toks) ← parseNotFrom operand fuel (advance toks)
      .ok (.not e, toks)

def parseNot (primary : Parser Expr) : Parser Expr := fun toks =>
  parseNotFrom (parseChildOf primary) toks.length toks

def parseAnd (primary : Parser Expr) : Parser Expr := binaryLevel andOps (parseNot primary)

/-- `parseOr` with at most `n` nested parentheses. -/
def parseOr : Nat → Parser Expr
  | 0 => fun _ => .error .outOfFuel
  | n + 1 => binaryLevel orOps (parseAnd (parsePrimary (parseOr n)))

/-- `Parse` -/
def parse (src : String) : Except ParseError Expr :=
  match tokenize src with
  | .error e => .error (.lex e)
  | .ok toks => do
    let (e, toks) ← parseOr toks.length toks
    if (cur toks).kind = .eof then .ok e
    else .error (.unexpectedToken (cur toks).text (cur toks).pos)

/-! ## What every level guarantees -/

/-- The tree's record fields and numerals have the lexer's shape, and an `IN` list has a member. -/
inductive WellFormed : Expr → Prop where
  | recordField {field} : IsIdent field → WellFormed (.recordField field)
  | userAttr {attr} : WellFormed (.userAttr attr)
  | tenantAttr {field} : WellFormed (.tenantAttr field)
  | roleCheck {role} : WellFormed (.roleCheck role)
  | permCheck {perm} : WellFormed (.permCheck perm)
  | null : WellFormed (.literal .null)
  | bool {b} : WellFormed (.literal (.bool b))
  | string {s} : WellFormed (.literal (.string s))
  | number {text} : IsNumeral text → WellFormed (.literal (.number text))
  | binary {op left right} : WellFormed left → WellFormed right → WellFormed (.binary op left right)
  | not {operand} : WellFormed operand → WellFormed (.not operand)
  | isNull {operand n} : WellFormed operand → WellFormed (.isNull operand n)
  | inList {operand values} : WellFormed operand → values ≠ [] → (∀ v ∈ values, WellFormed v) →
      WellFormed (.inList operand values)
  | tree {op target} : WellFormed target → WellFormed (.tree op target)

/-- The unread tokens of a run of the parser. -/
structure Toks (toks : List Token) : Prop where
  shaped : ∀ t ∈ toks, t.Shaped
  terminated : EofTerminated toks

/-- A level of the grammar, on token lists of length at most `n`. -/
structure Good (n : Nat) (p : Parser Expr) : Prop where
  ok : ∀ {toks e rest}, Toks toks → p toks = .ok (e, rest) →
    WellFormed e ∧ Toks rest ∧ rest.length < toks.length
  fuel : ∀ {toks}, Toks toks → toks.length ≤ n → p toks ≠ .error .outOfFuel

variable {toks : List Token}

theorem Toks.cur_shaped (h : Toks toks) : (cur toks).Shaped := by
  cases toks with
  | nil => exact absurd h.terminated (by simp [EofTerminated])
  | cons t ts => exact h.shaped t (by simp)

/-- The rest of shaped tokens is shaped. -/
theorem Toks.advance (h : Toks toks) : Toks (advance toks) := by
  match toks, h with
  | [t], h => exact h
  | t :: u :: us, h => exact ⟨fun x hx => h.shaped x (List.mem_cons_of_mem t hx), h.terminated⟩

theorem advance_length_le (toks : List Token) : (advance toks).length ≤ toks.length := by
  match toks with
  | [] => exact Nat.le_refl _
  | [t] => exact Nat.le_refl _
  | t :: u :: us => simp [advance]

/-- Passing a token other than the end of input shortens the list. -/
theorem Toks.advance_lt (h : Toks toks) (hk : (cur toks).kind ≠ .eof) : (Domain.advance toks).length < toks.length := by
  match toks, h with
  | [t], h => exact absurd h.terminated hk
  | t :: u :: us, _ => simp [Domain.advance]

theorem Toks.length_pos (h : Toks toks) : 0 < toks.length := by
  cases toks with
  | nil => exact absurd h.terminated (by simp [EofTerminated])
  | cons t ts => simp

variable {rest : List Token} {what : String}

/-- A token that was expected is the current one. -/
theorem expect_ok {kind : TokenKind} {t : Token} (h : expect kind what toks = .ok (t, rest)) :
    t = cur toks ∧ (cur toks).kind = kind ∧ rest = advance toks := by
  unfold expect at h
  split at h
  · rename_i hk
    cases h
    exact ⟨rfl, hk, rfl⟩
  · cases h

/-! ### Rules -/

section

variable {α β : Type} {c c' : Prop} {r : Except ParseError (α × List Token)} {P Q : α → List Token → Prop}

/-- What a run returns is as `Q` says, and under `c` it does not run out of fuel. -/
structure Ensures (c : Prop) (r : Except ParseError (α × List Token)) (Q : α → List Token → Prop) : Prop where
  ok : ∀ {a rest}, r = .ok (a, rest) → Q a rest
  fuel : c → r ≠ .error .outOfFuel

theorem Ensures.returns {a : α} (h : Q a rest) : Ensures c (.ok (a, rest)) Q := by
  refine ⟨fun heq => ?_, fun _ heq => ?_⟩
  · cases heq
    exact h
  · cases heq

theorem Ensures.refuses {err : ParseError} (h : c → err ≠ .outOfFuel) : Ensures c (.error err) Q := by
  refine ⟨fun heq => ?_, fun hc heq => h hc (Except.error.inj heq)⟩
  cases heq

theorem Ensures.imp (hr : Ensures c' r P) (hc : c → c') (hP : ∀ a rest, P a rest → Q a rest) : Ensures c r Q :=
  ⟨fun h => hP _ _ (hr.ok h), fun h => hr.fuel (hc h)⟩

/-- The rule of sequence. -/
theorem Ensures.bind {f : α × List Token → Except ParseError (β × List Token)} {Q : β → List Token → Prop}
    (hr : Ensures c' r P) (hc : c → c') (hf : ∀ a rest, P a rest → Ensures c (f (a, rest)) Q) :
    Ensures c (r >>= f) Q := by
  constructor
  · intro b rest h
    obtain ⟨⟨a, toks⟩, ha, h⟩ := bind_eq_ok.mp h
    exact (hf a toks (hr.ok ha)).ok h
  · intro hcond h
    rcases bind_eq_error.mp h with h | ⟨⟨a, toks⟩, ha, h⟩
    · exact hr.fuel (hc hcond) h
    · exact (hf a toks (hr.ok ha)).fuel hcond h

end

variable {c : Prop}

/-- A tree has been read off the tokens. -/
def Consumed (toks : List Token) (e : Expr) (rest : List Token) : Prop :=
  WellFormed e ∧ Toks rest ∧ rest.length < toks.length

theorem Toks.expects {kind : TokenKind} (ht : Toks toks) (hk : kind ≠ .eof) (what : String) :
    Ensures c (expect kind what toks) fun t rest =>
      t.Shaped ∧ t.kind = kind ∧ Toks rest ∧ rest.length < toks.length := by
  refine ⟨fun h => ?_, fun _ h => ?_⟩
  · obtain ⟨rfl, hkind, rfl⟩ := expect_ok h
    exact ⟨ht.cur_shaped, hkind, ht.advance, ht.advance_lt (hkind ▸ hk)⟩
  · unfold expect at h
    split at h <;> cases h

/-! ### Primaries -/

theorem parseCall_ensures {build : String → Expr} (hb : ∀ s, WellFormed (build s)) (ht : Toks toks) :
    Ensures c (parseCall build toks) (Consumed toks) := by
  apply (ht.expects (by simp) _).bind id
  rintro _ t1 ⟨-, -, ht1, hl1⟩
  apply (ht1.expects (by simp) _).bind id
  rintro arg t2 ⟨-, -, ht2, hl2⟩
  apply (ht2.expects (by simp) _).bind id
  rintro _ t3 ⟨-, -, ht3, hl3⟩
  exact .returns ⟨hb _, ht3, by omega⟩

theorem parseAttr_ensures {build : String → Expr} (hb : ∀ s, IsIdent s → WellFormed (build s)) (ht : Toks toks) :
    Ensures c (parseAttr what build toks) (Consumed toks) := by
  apply (ht.expects (by simp) _).bind id
  rintro _ t1 ⟨-, -, ht1, hl1⟩
  apply (ht1.expects (by simp) _).bind id
  rintro attr t2 ⟨hs, hk, ht2, hl2⟩
  exact .returns ⟨hb _ (hs.1 hk), ht2, by omega⟩

/-- An identifier is read into a well-formed tree, and at least one token is consumed. -/
theorem parseIdentExpr_ensures (ht : Toks toks) (hk : (cur toks).kind ≠ .eof) :
    Ensures c (parseIdentExpr toks) (Consumed toks) := by
  have ha := ht.advance
  have hlt := ht.advance_lt hk
  -- every branch that parses on starts from the tokens after the name
  have after {r : Except ParseError (Expr × List Token)} (h : Ensures c r (Consumed (advance toks))) :
      Ensures c r (Consumed toks) :=
    h.imp id fun _ _ hread => ⟨hread.1, hread.2.1, Nat.lt_trans hread.2.2 hlt⟩
  unfold parseIdentExpr
  dsimp only
  split
  · split
    · exact after (parseAttr_ensures (fun _ hs => .recordField hs) ha)
    split
    · exact .refuses fun _ => ParseError.noConfusion
    · exact .returns ⟨.recordField (by simp [IsIdent]), ha, hlt⟩
  iterate 2 exact after (parseAttr_ensures (fun _ _ => .userAttr) ha)
  · exact after (parseAttr_ensures (fun _ _ => .tenantAttr) ha)
  · exact after (parseCall_ensures (fun _ => .roleCheck) ha)
  · exact after (parseCall_ensures (fun _ => .permCheck) ha)
  · exact .refuses fun _ => ParseError.noConfusion

variable {n : Nat} {operand : Parser Expr}

/-- What a good reader ensures. -/
theorem Good.ensures (hg : Good n operand) (ht : Toks toks) :
    Ensures (toks.length ≤ n) (operand toks) (Consumed toks) := ⟨hg.ok ht, hg.fuel ht⟩

theorem good_of_ensures (h : ∀ toks, Toks toks → Ensures (toks.length ≤ n) (operand toks) (Consumed toks)) :
    Good n operand := ⟨fun ht => (h _ ht).ok, fun ht => (h _ ht).fuel⟩

/-- One nesting more of fuel reads one nesting more of parentheses. -/
theorem parsePrimary_good {inner : Parser Expr} (hg : Good n inner) : Good (n + 1) (parsePrimary inner) := by
  apply good_of_ensures
  intro toks ht
  have one {e : Expr} (hw : WellFormed e) (hk : (cur toks).kind ≠ .eof) :
      Ensures (toks.length ≤ n + 1) (.ok (e, advance toks)) (Consumed toks) :=
    .returns ⟨hw, ht.advance, ht.advance_lt hk⟩
  unfold parsePrimary
  dsimp only
  split
  · -- parentheses
    rename_i hk
    have hlt := ht.advance_lt (by rw [hk]; simp)
    apply (hg.ensures ht.advance).bind (by omega)
    rintro e t1 ⟨hw, ht1, hl1⟩
    apply (ht1.expects (by simp) _).bind id
    rintro _ t2 ⟨-, -, ht2, hl2⟩
    exact .returns ⟨hw, ht2, by dsimp only; omega⟩
  iterate 2
    rename_i hk; exact one .bool (by rw [hk]; simp)
  · rename_i hk; exact one .null (by rw [hk]; simp)
  · rename_i hk; exact one .string (by rw [hk]; simp)
  · rename_i hk; exact one (.number (ht.cur_shaped.2 hk)) (by rw [hk]; simp)
  · rename_i hk; exact parseIdentExpr_ensures ht (by rw [hk]; simp)
  · exact .refuses fun _ => ParseError.noConfusion

/-! ### Levels: an operand, then a loop that extends it -/

/-- A loop that extends the expression read so far, on token lists of length at most `n`. -/
structure LoopGood (n : Nat) (loop : Nat → Expr → Parser Expr) : Prop where
  ok : ∀ {fuel left toks e rest}, WellFormed left → Toks toks → loop fuel left toks = .ok (e, rest) →
    WellFormed e ∧ Toks rest ∧ rest.length ≤ toks.length
  fuel : ∀ {fuel left toks}, Toks toks → toks.length ≤ n → toks.length ≤ fuel →
    loop fuel left toks ≠ .error .outOfFuel

/-- What a loop does to the expression read so far. -/
def Extended (toks : List Token) (left e : Expr) (rest : List Token) : Prop :=
  (WellFormed left → WellFormed e) ∧ Toks rest ∧ rest.length ≤ toks.length

variable {loop : Nat → Expr → Parser Expr}

/-- A loop is good if one turn of it is, where the next one may be taken for granted. -/
theorem loopGood_of_turn (hzero : ∀ left toks, loop 0 left toks = .error .outOfFuel)
    (hturn : ∀ fuel left toks, Toks toks →
      (∀ left' rest, (WellFormed left → WellFormed left') → Toks rest → rest.length < toks.length →
        Ensures (toks.length ≤ n ∧ toks.length ≤ fuel + 1) (loop fuel left' rest) (Extended toks left)) →
      Ensures (toks.length ≤ n ∧ toks.length ≤ fuel + 1) (loop (fuel + 1) left toks) (Extended toks left)) :
    LoopGood n loop := by
  have hall : ∀ fuel left toks, Toks toks →
      Ensures (toks.length ≤ n ∧ toks.length ≤ fuel) (loop fuel left toks) (Extended toks left) := by
    intro fuel
    induction fuel with
    | zero =>
      intro left toks ht
      rw [hzero]
      exact .refuses fun hc => absurd ht.length_pos (by omega)
    | succ fuel ih =>
      intro left toks ht
      apply hturn fuel left toks ht
      intro left' rest hwf hrest hlt
      apply (ih left' rest hrest).imp (fun hc => ⟨by omega, by omega⟩)
      rintro e rest' ⟨hw, htr, hle⟩
      exact ⟨fun hleft => hw (hwf hleft), htr, by omega⟩
  refine ⟨fun hl ht h => ?_, fun ht hn hf => (hall _ _ _ ht).fuel ⟨hn, hf⟩⟩
  obtain ⟨hw, htr, hle⟩ := (hall _ _ _ ht).ok h
  exact ⟨hw hl, htr, hle⟩

/-- A level is good if its operands and its loop are. -/
theorem level_good (hg : Good n operand) (hl : LoopGood n loop) : Good n (fun toks => do
      let (left, toks) ← operand toks
      loop toks.length left toks) := by
  apply good_of_ensures
  intro toks ht
  apply (hg.ensures ht).bind id
  rintro left t1 ⟨hleft, ht1, hlt1⟩
  refine ⟨fun h => ?_, fun hn => hl.fuel ht1 (by omega) (Nat.le_refl _)⟩
  obtain ⟨hw, htr, hlr⟩ := hl.ok hleft ht1 h
  exact ⟨hw, htr, by omega⟩

theorem binaryLoop_good {ops : TokenKind → Option BinOp}
    (hops : ops .eof = none) (hg : Good n operand) : LoopGood n (binaryLoop ops operand) := by
  apply loopGood_of_turn fun _ _ => rfl
  intro fuel left toks ht next
  rw [binaryLoop]
  split
  · exact .returns ⟨id, ht, Nat.le_refl _⟩
  rename_i op hop
  have hlt := ht.advance_lt (fun hk => by rw [hk, hops] at hop; cases hop)
  apply (hg.ensures ht.advance).bind (by omega)
  rintro right t1 ⟨hr, ht1, hlt1⟩
  exact next _ t1 (.binary · hr) ht1 (by omega)

theorem binaryLevel_good {ops : TokenKind → Option BinOp}
    (hops : ops .eof = none) (hg : Good n operand) : Good n (binaryLevel ops operand) :=
  level_good hg (binaryLoop_good hops hg)

/-- The tokens of `IS [NOT]`, up to the `NULL` that must follow. -/
theorem Toks.afterIs (ht : Toks toks) (hk : (cur toks).kind = .is) (b : Bool) :
    Toks (if b then Domain.advance (Domain.advance toks) else Domain.advance toks) ∧
      (if b then Domain.advance (Domain.advance toks) else Domain.advance toks).length < toks.length := by
  have hlt := ht.advance_lt (by rw [hk]; simp)
  have hle := advance_length_le (Domain.advance toks)
  cases b with
  | false => exact ⟨ht.advance, hlt⟩
  | true => exact ⟨ht.advance.advance, by simpa using by omega⟩

theorem isNullLoop_good (n : Nat) : LoopGood n isNullLoop := by
  apply loopGood_of_turn fun _ _ => rfl
  intro fuel left toks ht next
  rw [isNullLoop]
  split
  · rename_i hk
    obtain ⟨htb, hltb⟩ := ht.afterIs hk (decide ((cur (advance toks)).kind = .not))
    apply (htb.expects (by simp) _).bind id
    rintro _ t1 ⟨-, -, ht1, hlt1⟩
    exact next _ t1 .isNull ht1 (by omega)
  · exact .returns ⟨id, ht, Nat.le_refl _⟩

variable {primary : Parser Expr}

theorem parseIsNull_good (hg : Good n primary) : Good n (parseIsNull primary) :=
  level_good (binaryLevel_good rfl (binaryLevel_good rfl hg)) (isNullLoop_good n)

variable {value : Parser Expr}

/-- The members of a list; each round consumes a token, so the fuel is enough. -/
theorem parseValues_ensures (hg : Good n value) (fuel : Nat) {acc : List Expr} (hacc : ∀ v ∈ acc, WellFormed v)
    (ht : Toks toks) : Ensures (toks.length ≤ n ∧ toks.length ≤ fuel) (parseValues value fuel acc toks)
      fun vs rest => (vs ≠ [] ∧ ∀ v ∈ vs, WellFormed v) ∧ Toks rest ∧ rest.length < toks.length := by
  induction fuel generalizing acc toks with
  | zero => exact .refuses fun hc => absurd ht.length_pos (by omega)
  | succ fuel ih =>
    apply (hg.ensures ht).bind And.left
    rintro v t1 ⟨hv, ht1, hlt1⟩
    have hacc' : ∀ w ∈ acc ++ [v], WellFormed w := by
      intro w hw
      rcases List.mem_append.mp hw with hw | hw
      · exact hacc w hw
      · exact List.mem_singleton.mp hw ▸ hv
    dsimp only
    split
    · have hle := advance_length_le t1
      apply (ih hacc' ht1.advance).imp (fun hc => ⟨by omega, by omega⟩)
      rintro vs rest ⟨hvs, htr, hlr⟩
      exact ⟨hvs, htr, by omega⟩
    · exact .returns ⟨⟨by simp, hacc'⟩, ht1, hlt1⟩

theorem inLoop_good (hg : Good n value) : LoopGood n (inLoop value) := by
  apply loopGood_of_turn fun _ _ => rfl
  intro fuel left toks ht next
  rw [inLoop]
  split
  · rename_i hk
    have hlt := ht.advance_lt (by rw [hk]; simp)
    apply (ht.advance.expects (by simp) _).bind id
    rintro _ t1 ⟨-, -, ht1, hlt1⟩
    apply (parseValues_ensures hg _ (by simp) ht1).bind (fun hc => ⟨by omega, Nat.le_refl _⟩)
    rintro vs t2 ⟨⟨hne, hvs⟩, ht2, hlt2⟩
    apply (ht2.expects (by simp) _).bind id
    rintro _ t3 ⟨-, -, ht3, hlt3⟩
    exact next _ t3 (.inList · hne hvs) ht3 (by omega)
  · exact .returns ⟨id, ht, Nat.le_refl _⟩

theorem childOfLoop_good (hg : Good n operand) : LoopGood n (childOfLoop operand) := by
  apply loopGood_of_turn fun _ _ => rfl
  intro fuel left toks ht next
  rw [childOfLoop]
  split
  · exact .returns ⟨id, ht, Nat.le_refl _⟩
  rename_i op hop
  have hlt := ht.advance_lt (fun hk => by rw [hk] at hop; cases hop)
  split
  · apply (hg.ensures ht.advance).bind (by omega)
    rintro target t1 ⟨hr, ht1, hlt1⟩
    exact next _ t1 (fun _ => .tree hr) ht1 (by omega)
  · exact .refuses fun _ => ParseError.noConfusion

theorem parseChildOf_good (hg : Good n primary) : Good n (parseChildOf primary) :=
  have hin : Good n (parseIn primary) := level_good (parseIsNull_good hg) (inLoop_good (parseIsNull_good hg))
  level_good hin (childOfLoop_good hin)

theorem parseNot_good (hg : Good n primary) : Good n (parseNot primary) := by
  have hfrom : ∀ (fuel : Nat) {toks}, Toks toks →
      Ensures (toks.length ≤ n ∧ toks.length ≤ fuel) (parseNotFrom (parseChildOf primary) fuel toks)
        (Consumed toks) := by
    intro fuel
    induction fuel with
    | zero => exact fun ht => .refuses fun hc => absurd ht.length_pos (by omega)
    | succ fuel ih =>
      intro toks ht
      rw [parseNotFrom]
      split
      · exact ((parseChildOf_good hg).ensures ht).imp And.left fun _ _ h => h
      rename_i hk
      have hlt := ht.advance_lt (by simp at hk; rw [hk]; simp)
      apply (ih ht.advance).bind (fun hc => ⟨by omega, by omega⟩)
      rintro e t1 ⟨hw, ht1, hlt1⟩
      exact .returns ⟨.not hw, ht1, by omega⟩
  exact good_of_ensures fun toks ht => (hfrom _ ht).imp (fun hn => ⟨hn, Nat.le_refl _⟩) fun _ _ h => h

/-- The fuel bounds the nesting: with `n` of it, `n` tokens are read. -/
theorem parseOr_good (n : Nat) : Good n (parseOr n) := by
  induction n with
  | zero => exact good_of_ensures fun toks ht => .refuses fun hn => absurd ht.length_pos (by omega)
  | succ n ih =>
    exact binaryLevel_good rfl (binaryLevel_good rfl (parseNot_good (parsePrimary_good ih)))

/-! ## The parser as a whole -/

/-- The lexer's tokens are shaped and end with the end of input. -/
theorem tokenize_toks {src : String} (h : tokenize src = .ok toks) : Toks toks :=
  ⟨(tokenize_ok h).1, (tokenize_ok h).2⟩

/-- **What `Parse` accepts is well formed**: its fields are identifiers and its numerals the lexer's. -/
theorem parse_wellFormed {src : String} (h : parse src = .ok e) : WellFormed e := by
  unfold parse at h
  split at h
  · cases h
  rename_i toks htoks
  obtain ⟨⟨e', rest⟩, h1, h⟩ := bind_eq_ok.mp h
  obtain ⟨hw, -, -⟩ := (parseOr_good _).ok (tokenize_toks htoks) h1
  dsimp only at h
  split at h
  · cases h
    exact hw
  · cases h

/-- **`Parse` returns**: the bounds of the loops and of the nesting are never what stops it. -/
theorem parse_ne_outOfFuel (src : String) : parse src ≠ .error .outOfFuel := by
  unfold parse
  split
  · simp
  rename_i toks htoks
  intro h
  rcases bind_eq_error.mp h with h | ⟨⟨e', rest⟩, _, h⟩
  · exact (parseOr_good _).fuel (tokenize_toks htoks) (Nat.le_refl _) h
  · dsimp only at h
    split at h <;> cases h

end GoErp.Domain
